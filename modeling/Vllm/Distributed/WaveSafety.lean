import Mathlib.Algebra.BigOperators.Group.List.Basic
import Vllm.Distributed.WaveInvariant

/-!
# No engine is stranded

When no message is on its way, either all engines have work or none has, and in the second
case the coordinator knows that the wave is over. Deliveries alone lead to such a state, so
that from every state with work the next forward pass of all engines is reached.
-/

namespace Vllm.Distributed.Waves

variable {n m : Nat}

/-- How many receipts a message can lead to. -/
def Message.weight : Message n m → Nat
  | .add .. => n + m + 3
  | .firstReq .. => n + m + 3
  | .notify .. => n + m + 2
  | .startWave .. => n + m + 2
  | .waveComplete _ => m + 1
  | .published .. => 1
  | .startDpWave .. => 1

namespace System

/-- The steps of a run can be taken and are orderly. -/
def Run (s : System n m) (l : List (Action n m)) : Prop :=
  TotalRun.Throughout System.step (fun s a => s.Enabled a ∧ s.Orderly a) s l

variable {s : System n m}

/-- Without messages on their way, all engines have work or the coordinator knows that none
has. -/
theorem Invariant.quiescent (h : s.Invariant) (hnet : s.net = []) :
    (∀ i, (s.engines i).hasWork = true) ∨
      (∀ i, (s.engines i).hasWork = false) ∧ s.coordinator = ⟨s.wave, false⟩ := by
  have hawake : ∀ i, s.Awake i → (s.engines i).hasWork = true := by
    rintro i (hi | ⟨w, hw⟩)
    · exact hi
    · rw [hnet] at hw
      cases hw
  have hwoken : s.Started → ∀ i, (s.engines i).hasWork = true := by
    intro hs i
    apply hawake i (h.leftOut i (Or.inr ⟨hs, fun msg hm => ?_⟩))
    rw [hnet] at hm
    cases hm
  have hstarted : s.Called → s.Started := by
    intro hs
    simpa only [Called, Asked, hnet, List.not_mem_nil, exists_false, and_false, or_false] using hs
  by_cases hwork : ∃ i, (s.engines i).hasWork = true
  · obtain ⟨i, hi⟩ := hwork
    left
    obtain hall | hcalled := h.called i hi
    · intro j
      rw [EngineState.hasWork, hall j, Bool.true_or]
    · exact hwoken (hstarted hcalled)
  · right
    have hidle : ∀ i, (s.engines i).hasWork = false := fun i =>
      Bool.eq_false_iff.mpr fun hi => hwork ⟨i, hi⟩
    refine ⟨hidle, ?_⟩
    have hknown : s.coordinator.currentWave = s.wave := by
      apply Nat.le_antisymm h.coordinator_le
      by_contra hlt
      obtain ⟨w, -, hw⟩ := h.completing (by omega)
      rw [hnet] at hw
      cases hw
    have hpaused : s.coordinator.enginesRunning = false := by
      apply Bool.eq_false_iff.mpr
      intro hrun
      have hi := hwoken ⟨hknown, hrun⟩ 0
      rw [hidle 0] at hi
      cases hi
    rw [← hknown, ← hpaused]

/-- In an orderly run all engines go through the same waves in the same number of steps, so
that they enter every all-reduce together. Whenever no message is on its way, either all
engines have work, or none has, and then the coordinator knows the engines' wave and takes
the engines for paused. -/
theorem run_neverStrands {l : List (Action n m)} (hl : (System.start n m).Run l)
    {s : System n m} (hs : s = l.foldl System.step (System.start n m)) :
    (∀ i j, (s.engines i).currentWave = (s.engines j).currentWave ∧
        (s.engines i).stepCounter = (s.engines j).stepCounter) ∧
      (s.net = [] → (∀ i, (s.engines i).hasWork = true) ∨
        (∀ i, (s.engines i).hasWork = false) ∧ s.coordinator = ⟨s.wave, false⟩) := by
  have h : s.Invariant := hs ▸ invariant_run hl
  refine ⟨fun i j => ?_, h.quiescent⟩
  rw [h.sameWave i, h.sameWave j, h.sameCounter i, h.sameCounter j]
  exact ⟨rfl, rfl⟩

/-! ## Progress -/

/-- The receipt of a message. -/
def Delivers : Action n m → Prop
  | .forwardFirstReq .. => True
  | .takePublished .. => True
  | .addRequest .. => True
  | .startDpWave .. => True
  | .poll front back => front.isSome = true ∨ back.isSome = true
  | _ => False

/-- How many receipts the messages on their way can lead to. -/
def weight (s : System n m) : Nat := (s.net.map Message.weight).sum

private theorem weight_append (s : System n m) (sent : List (Message n m)) :
    ((s.net ++ sent).map Message.weight).sum = s.weight + (sent.map Message.weight).sum := by
  rw [List.map_append, List.sum_append, weight]

private theorem weight_receive {msg : Message n m} (hmem : msg ∈ s.net) :
    (s.receive msg).weight + msg.weight = s.weight := by
  rw [weight, receive, Nat.add_comm]
  exact List.sum_map_erase _ hmem

private theorem weight_sendStartWave (wave : Nat) (exclude : Option (EngineName n)) :
    ((sendStartWave wave exclude : List (Message n m)).map Message.weight).sum = n + 1 := by
  simp [sendStartWave, Message.weight, Function.comp_def]

private theorem weight_publish (c : Coordinator) :
    ((publish c : List (Message n m)).map Message.weight).sum = m := by
  simp [publish, Message.weight, Function.comp_def]

/-- The receipt of a message by an engine uses up more than it sends. -/
theorem weight_setEngine {msg : Message n m} (hmem : msg ∈ s.net) (i : Fin (n + 1))
    (e : EngineState) {sent : List (Message n m)}
    (hsent : (sent.map Message.weight).sum < msg.weight) :
    ((s.receive msg).setEngine i e sent).weight < s.weight := by
  have hreceive := weight_receive hmem
  have hweight : ((s.receive msg).setEngine i e sent).weight =
      (s.receive msg).weight + (sent.map Message.weight).sum :=
    weight_append (s.receive msg) sent
  omega

/-- What the coordinator sends replaces the message that it received. -/
theorem weight_setCoordinator {msg : Message n m} (hmem : msg ∈ s.net)
    (r : Coordinator × List (Message n m) × Bool) :
    ((s.receive msg).setCoordinator r).weight + msg.weight =
      s.weight + (r.2.1.map Message.weight).sum := by
  have hreceive := weight_receive hmem
  have hweight : ((s.receive msg).setCoordinator r).weight =
      (s.receive msg).weight + (r.2.1.map Message.weight).sum := weight_append (s.receive msg) _
  omega

/-- The front half of a turn leaves enough for publishing the new state. -/
theorem weight_receiveFront {front : Option (Fin (n + 1) × Nat)}
    (hfront : ∀ f ∈ front, .notify f.1 f.2 ∈ s.net) :
    (s.receiveFront front).1.weight + (if front.isSome then m + 1 else 0) ≤ s.weight := by
  cases front with
  | none => simp [receiveFront]
  | some f =>
    have hweight := weight_setCoordinator (hfront f rfl) (handleFront s.coordinator f.1 f.2)
    have hsent : ((handleFront (m := m) s.coordinator f.1 f.2).2.1.map Message.weight).sum ≤
        n + 1 := by
      rw [handleFront]
      split
      · exact Nat.zero_le _
      · exact Nat.le_of_eq (weight_sendStartWave _ _)
    rw [Message.weight] at hweight
    change ((s.receive _).setCoordinator _).weight + (m + 1) ≤ _
    omega

/-- The back half of a turn leaves enough for publishing the new state. -/
theorem weight_receiveBack {back : Option (BackMessage n)}
    (hback : ∀ msg ∈ back, msg.toMessage ∈ s.net) :
    (s.receiveBack back).1.weight + (if back.isSome then m + 1 else 0) ≤ s.weight := by
  cases back with
  | none => simp [receiveBack]
  | some msg =>
    cases msg with
    | startWave engine wave =>
      have hweight := weight_setCoordinator (hback _ rfl)
        (handleStartWave s.coordinator engine wave)
      have hsent : ((handleStartWave (m := m) s.coordinator engine wave).2.1.map
          Message.weight).sum ≤ n + 1 := by
        rw [handleStartWave]
        split
        · exact Nat.le_of_eq (weight_sendStartWave _ _)
        · exact Nat.zero_le _
      rw [BackMessage.toMessage, Message.weight] at hweight
      change ((s.receive (.startWave engine wave)).setCoordinator
        (handleStartWave s.coordinator engine wave)).weight + (m + 1) ≤ _
      omega
    | waveComplete wave =>
      have hweight := weight_setCoordinator (hback _ rfl)
        (handleWaveComplete s.coordinator wave)
      have hsent : ((handleWaveComplete (n := n) (m := m) s.coordinator wave).2.1.map
          Message.weight).sum = 0 := by
        rw [handleWaveComplete]
        split <;> rfl
      rw [BackMessage.toMessage, Message.weight] at hweight
      change ((s.receive (.waveComplete wave)).setCoordinator
        (handleWaveComplete s.coordinator wave)).weight + (m + 1) ≤ _
      omega

/-- Every receipt leaves fewer receipts to come. -/
theorem weight_step {a : Action n m} (henabled : s.Enabled a) (hdelivers : Delivers a) :
    (s.step a).weight < s.weight := by
  cases a with
  | forwardFirstReq client engine =>
    have hreceive := weight_receive henabled
    have hweight := weight_append (s.receive (.firstReq client engine))
      [.notify engine (s.clients client).currentWave]
    simp only [List.map_cons, List.map_nil, List.sum_cons, List.sum_nil, Message.weight]
      at hreceive hweight
    change ((s.receive (.firstReq client engine)).net ++ _ |>.map Message.weight).sum < _
    omega
  | takePublished client wave running =>
    have hreceive := weight_receive henabled
    rw [Message.weight] at hreceive
    change (s.receive (.published client wave running)).weight < _
    omega
  | addRequest engine wave =>
    apply weight_setEngine henabled
    have hsent : ∀ sent : List (Message n m), (sent = [] ∨ ∃ w, sent = [.startWave engine w]) →
        (sent.map Message.weight).sum < n + m + 3 := by
      rintro sent (rfl | ⟨w, rfl⟩) <;> simp [Message.weight]
    apply hsent
    rw [Waves.addRequest]
    dsimp only
    split_ifs <;> simp
  | startDpWave engine wave exclude =>
    apply weight_setEngine henabled
    exact Nat.zero_lt_one
  | poll front back =>
    have hfront := weight_receiveFront henabled.1
    have hback := weight_receiveBack fun msg hmsg =>
      toMessage_mem_receiveFront (henabled.2 msg hmsg) front
    have hpublish := weight_append ((s.receiveFront front).1.receiveBack back).1
      (Waves.publish ((s.receiveFront front).1.receiveBack back).1.coordinator)
    rw [weight_publish] at hpublish
    have hsome : m < (if front.isSome then m + 1 else 0) + (if back.isSome then m + 1 else 0) := by
      obtain h | h := hdelivers
      · rw [h, if_pos rfl]
        omega
      · rw [h, if_pos rfl]
        omega
    change (System.poll s front back).weight < _
    unfold System.poll
    dsimp only
    split
    · exact Nat.lt_of_le_of_lt (Nat.le_of_eq hpublish) (by omega)
    · omega
  | addRequestAsync | abort | pass | publish => exact hdelivers.elim

/-- Receipts do not take work from an engine. -/
theorem hasWork_step {a : Action n m} (hdelivers : Delivers a) {i : Fin (n + 1)}
    (hi : (s.engines i).hasWork = true) : ((s.step a).engines i).hasWork = true := by
  have hset : ∀ (msg : Message n m) (j : Fin (n + 1)) (e : EngineState) (sent),
      ((s.engines j).hasWork = true → e.hasWork = true) →
      (((s.receive msg).setEngine j e sent).engines i).hasWork = true := by
    intro msg j e sent hj
    by_cases hij : i = j
    · subst hij
      simpa [setEngine, receive] using hj hi
    · simpa [setEngine, receive, hij] using hi
  cases a with
  | forwardFirstReq client engine => exact hi
  | takePublished client wave running => exact hi
  | addRequest engine wave =>
    apply hset
    intro hj
    rw [Waves.addRequest]
    dsimp only
    split_ifs <;> simp [EngineState.hasWork]
  | startDpWave engine wave exclude =>
    apply hset
    intro hj
    rw [handleStartDpWave]
    split
    · rfl
    · exact hj
  | poll front back =>
    have hfront : (s.receiveFront front).1.engines = s.engines := by cases front <;> rfl
    have hback : ((s.receiveFront front).1.receiveBack back).1.engines = s.engines := by
      rw [← hfront]
      cases back <;> rfl
    change ((System.poll s front back).engines i).hasWork = true
    unfold System.poll
    dsimp only
    split
    · change ((((s.receiveFront front).1.receiveBack back).1).engines i).hasWork = true
      rwa [hback]
    · rwa [hback]
  | addRequestAsync | abort | pass | publish => exact hdelivers.elim

/-- While messages are on their way, any of them can be received in an orderly step. -/
private theorem exists_delivers (hnet : s.net ≠ []) :
    ∃ a, Delivers a ∧ s.Enabled a ∧ s.Orderly a := by
  obtain ⟨msg, hm⟩ := List.exists_mem_of_ne_nil _ hnet
  have hback : ∀ msg : BackMessage n, msg.toMessage ∈ s.net →
      ∃ a, Delivers a ∧ s.Enabled a ∧ s.Orderly a := by
    intro msg hm
    refine ⟨.poll none (some msg), Or.inr rfl, ⟨by simp, ?_⟩, trivial⟩
    rintro _ ⟨⟩
    exact hm
  cases msg with
  | add i w => exact ⟨.addRequest i w, trivial, hm, trivial⟩
  | firstReq c i => exact ⟨.forwardFirstReq c i, trivial, hm, trivial⟩
  | notify i w =>
    refine ⟨.poll (some (i, w)) none, Or.inl rfl, ⟨?_, by simp⟩, trivial⟩
    rintro f ⟨⟩
    exact hm
  | published c w running => exact ⟨.takePublished c w running, trivial, hm, trivial⟩
  | startDpWave i w x => exact ⟨.startDpWave i w x, trivial, hm, trivial⟩
  | startWave i w => exact hback (.startWave i w) hm
  | waveComplete w => exact hback (.waveComplete w) hm

/-- Orderly receipts bring every state to one without messages, and keep all work. -/
private theorem exists_deliveries (s : System n m) :
    ∃ l : List (Action n m), (∀ a ∈ l, Delivers a) ∧
    s.Run l ∧ (l.foldl System.step s).net = [] ∧
    ∀ i, (s.engines i).hasWork = true → ((l.foldl System.step s).engines i).hasWork = true := by
  induction hweight : s.weight using Nat.strongRecOn generalizing s with
  | ind k ih =>
    by_cases hnet : s.net = []
    · exact ⟨[], by simp, trivial, hnet, fun _ => id⟩
    · obtain ⟨a, hdelivers, henabled, horderly⟩ := exists_delivers hnet
      have hlt := weight_step henabled hdelivers
      obtain ⟨l, hl, hrun, hend, hwork⟩ := ih _ (hweight ▸ hlt) (s.step a) rfl
      refine ⟨a :: l, ?_, ⟨⟨henabled, horderly⟩, hrun⟩, hend, fun i hi => ?_⟩
      · intro b hb
        obtain rfl | hb := List.mem_cons.mp hb
        · exact hdelivers
        · exact hl b hb
      · exact hwork i (hasWork_step hdelivers hi)

/-- There are no more receipts in a row than the messages on their way can lead to. -/
private theorem length_deliveries_le {l : List (Action n m)} (hl : ∀ a ∈ l, Delivers a)
    (hrun : s.Run l) : l.length ≤ s.weight := by
  induction l generalizing s with
  | nil => exact Nat.zero_le _
  | cons a l ih =>
    have hlt := weight_step hrun.1.1 (hl a List.mem_cons_self)
    have hlength := ih (fun b hb => hl b (List.mem_cons_of_mem _ hb)) hrun.2
    rw [List.length_cons]
    omega

/-- From every state of an orderly run in which an engine has work, orderly receipts alone,
however long they go on, end, and they reach a state in which all engines have work, so that
the next forward pass can be made. -/
theorem run_reachesPass {l : List (Action n m)} (hl : (System.start n m).Run l)
    {s : System n m} (hs : s = l.foldl System.step (System.start n m)) {i : Fin (n + 1)}
    (hi : (s.engines i).hasWork = true) :
    (∀ l', (∀ a ∈ l', Delivers a) → s.Run l' → l'.length ≤ s.weight) ∧
      ∃ l', (∀ a ∈ l', Delivers a) ∧ s.Run l' ∧
        ∀ finished, (l'.foldl System.step s).Enabled (.pass finished) := by
  have h : s.Invariant := hs ▸ invariant_run hl
  refine ⟨fun l' hdelivers hrun => length_deliveries_le hdelivers hrun, ?_⟩
  obtain ⟨l', hdelivers, hrun, hend, hwork⟩ := exists_deliveries s
  have h' : (l'.foldl System.step s).Invariant :=
    TotalRun.invariant (fun _ _ h ha => h.step ha.1 ha.2) h hrun
  refine ⟨l', hdelivers, hrun, fun finished => ?_⟩
  obtain hall | hnone := h'.quiescent hend
  · exact hall
  · have hidle := hnone.1 i
    rw [hwork i hi] at hidle
    cases hidle

/-! ## Runs of two engines -/

instance decidableEnabled (s : System n m) : ∀ a, Decidable (s.Enabled a)
  | .addRequestAsync .. => .isTrue trivial
  | .forwardFirstReq client engine => inferInstanceAs (Decidable (.firstReq client engine ∈ s.net))
  | .takePublished client wave running =>
    inferInstanceAs (Decidable (.published client wave running ∈ s.net))
  | .addRequest engine wave => inferInstanceAs (Decidable (.add engine wave ∈ s.net))
  | .startDpWave engine wave exclude =>
    inferInstanceAs (Decidable (.startDpWave engine wave exclude ∈ s.net))
  | .abort engine => inferInstanceAs (Decidable (0 < (s.engines engine).unfinished))
  | .pass _ => inferInstanceAs (Decidable (∀ i, (s.engines i).hasWork = true))
  | .poll front back => inferInstanceAs (Decidable
    ((∀ f ∈ front, .notify f.1 f.2 ∈ s.net) ∧ ∀ msg ∈ back, msg.toMessage ∈ s.net))
  | .publish => .isTrue trivial

instance decidableWakes (i : Fin (n + 1)) (wave : Nat) :
    ∀ msg : Message n m, Decidable (msg.Wakes i wave)
  | .startDpWave .. => inferInstanceAs (Decidable (_ ∧ _ ∧ _))
  | .add .. | .firstReq .. | .notify .. | .published .. | .startWave .. | .waveComplete _ =>
    .isFalse id

instance decidableLeftOut (s : System n m) (i : Fin (n + 1)) : Decidable (s.LeftOut i) :=
  inferInstanceAs (Decidable (.startWave i s.wave ∈ s.net ∨
    (s.coordinator.currentWave = s.wave ∧ s.coordinator.enginesRunning = true) ∧
      ∀ msg ∈ s.net, ¬ msg.Wakes i s.wave))

instance decidableOrderly (s : System n m) : ∀ a, Decidable (s.Orderly a)
  | .abort engine => inferInstanceAs (Decidable ((s.engines engine).enginesRunning = true ∨
      1 < (s.engines engine).unfinished ∨ ¬ s.LeftOut engine))
  | .addRequestAsync .. | .forwardFirstReq .. | .takePublished .. | .addRequest .. | .startDpWave ..
  | .pass _ | .poll .. | .publish => .isTrue trivial

instance decidableRun (s : System n m) (l : List (Action n m)) : Decidable (s.Run l) :=
  inferInstanceAs (Decidable (TotalRun.Throughout ..))

/-- A request to an engine, aborted before it is worked on, and the messages that wake all
engines. -/
def firstRequest (client : Fin m) (engine other : Fin (n + 1)) : List (Action n m) :=
  [.addRequestAsync client engine, .addRequest engine 0, .abort engine,
    .forwardFirstReq client engine, .poll (some (engine, 0)) none,
    .startDpWave other 0 (some (.identity engine)), .startDpWave engine 0 (some (.identity engine)),
    .takePublished client 0 true]

theorem run_neverStrands_firstRequest :
    (∀ i j, (((firstRequest 0 1 0).foldl System.step (System.start 1 1)).engines i).currentWave =
        (((firstRequest 0 1 0).foldl System.step (System.start 1 1)).engines j).currentWave ∧
      (((firstRequest 0 1 0).foldl System.step (System.start 1 1)).engines i).stepCounter =
        (((firstRequest 0 1 0).foldl System.step (System.start 1 1)).engines j).stepCounter) ∧
    (((firstRequest 0 1 0).foldl System.step (System.start 1 1)).net = [] →
      (∀ i,
        (((firstRequest 0 1 0).foldl System.step (System.start 1 1)).engines i).hasWork = true) ∨
      (∀ i,
        (((firstRequest 0 1 0).foldl System.step (System.start 1 1)).engines i).hasWork = false) ∧
        ((firstRequest 0 1 0).foldl System.step (System.start 1 1)).coordinator =
          ⟨((firstRequest 0 1 0).foldl System.step (System.start 1 1)).wave, false⟩) :=
  run_neverStrands (l := firstRequest 0 1 0) (by decide) rfl

theorem run_reachesPass_firstRequest :
    (∀ l', (∀ a ∈ l', Delivers a) →
      (((firstRequest 0 1 0).take 6).foldl System.step (System.start 1 1)).Run l' →
      l'.length ≤ (((firstRequest 0 1 0).take 6).foldl System.step (System.start 1 1)).weight) ∧
    ∃ l', (∀ a ∈ l', Delivers a) ∧
      (((firstRequest 0 1 0).take 6).foldl System.step (System.start 1 1)).Run l' ∧
      ∀ finished, (l'.foldl System.step
        (((firstRequest 0 1 0).take 6).foldl System.step (System.start 1 1))).Enabled
          (.pass finished) :=
  run_reachesPass (l := (firstRequest 0 1 0).take 6) (i := 0) (by decide) rfl (by decide)

/-- The orderly runs leave this out: a request reaches an engine behind its wave, and is
aborted after the engine has reported it. The broadcast leaves this engine out, and the other
one runs alone. -/
example :
    let wave : List (Action 1 1) := firstRequest 0 1 0 ++
      [.addRequestAsync 0 0, .addRequest 0 0, .addRequestAsync 0 1] ++
      List.replicate 32 (.pass fun _ => 1)
    let next : List (Action 1 1) := [.addRequest 1 0, .abort 1, .poll none (some (.waveComplete 0)),
      .poll none (some (.startWave 1 1)), .takePublished 0 1 false,
      .startDpWave 0 1 (some (.index 1)), .startDpWave 1 1 (some (.index 1)),
      .takePublished 0 1 true]
    let s := (wave ++ next).foldl System.step (System.start 1 1)
    s.net = [] ∧ (s.engines 0).hasWork = true ∧ (s.engines 1).hasWork = false := by
  decide +kernel

end System

end Vllm.Distributed.Waves
