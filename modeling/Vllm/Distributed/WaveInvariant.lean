import Vllm.Distributed.DataParallelWaves

/-!
# What holds in every state of the wave protocol

All engines are in the same wave. Where an engine has work in that wave, either all
engines run, or the coordinator has started the wave, or a message on its way makes it
start the wave. An engine that is left out of the wave has work, or will have it from a
message on its way; every other engine is woken once the coordinator has started the wave.
-/

namespace Vllm.Distributed.Waves

variable {n m : Nat}

namespace System

/-- An engine has work, or a request is on its way to it. -/
def Awake (s : System n m) (i : Fin (n + 1)) : Prop :=
  (s.engines i).hasWork = true ∨ ∃ w, .add i w ∈ s.net

/-- All engines run. -/
def AllRunning (s : System n m) : Prop := ∀ i, (s.engines i).enginesRunning = true

/-- A front end asks the coordinator to start the wave, or is about to. -/
def Asked (s : System n m) : Prop :=
  (∃ i w, .notify i w ∈ s.net) ∨ ∃ c i, .firstReq c i ∈ s.net

/-- The coordinator has started the wave, or a message makes it do so. -/
def Called (s : System n m) : Prop :=
  s.Started ∨ (∃ i, .startWave i s.wave ∈ s.net) ∨ s.Known ∧ s.Asked

/-- What a message on its way says of the state. It is never ahead of the engines, and where
it is about the current wave, the coordinator knows of the wave, or the wave is started. -/
def Fits (s : System n m) : Message n m → Prop
  | .add _ w => w ≤ s.wave ∧ (w = s.wave → s.AllRunning ∨ s.Called)
  | .firstReq .. | .notify .. => True
  | .published _ w running => w ≤ s.wave ∧ (w = s.wave → s.Known ∧ (running = true → s.Started))
  | .startDpWave _ w _ => w ≤ s.wave ∧ (w = s.wave → s.Started)
  | .startWave _ w => w ≤ s.wave
  | .waveComplete w => w < s.wave

/-- The invariant of the protocol. -/
structure Invariant (s : System n m) : Prop where
  /-- All engines are in one wave. -/
  sameWave : ∀ i, (s.engines i).currentWave = s.wave
  /-- All engines have made the same number of steps in it. -/
  sameCounter : ∀ i, (s.engines i).stepCounter = (s.engines 0).stepCounter
  /-- The coordinator is not ahead of the engines. -/
  coordinator_le : s.coordinator.currentWave ≤ s.wave
  /-- Where the coordinator is behind, the end of the last wave is on its way to it. -/
  completing : s.coordinator.currentWave < s.wave → ∃ w, w + 1 = s.wave ∧ .waveComplete w ∈ s.net
  /-- No front end is ahead of the engines. -/
  client_le : ∀ c, (s.clients c).currentWave ≤ s.wave
  /-- Front ends know of the wave through the coordinator. -/
  client_known : ∀ c, (s.clients c).currentWave = s.wave → s.Known
  /-- A front end that takes the engines for running knows it or has sent a notification. -/
  client_running : ∀ c, (s.clients c).currentWave = s.wave →
    (s.clients c).enginesRunning = true → s.Called
  /-- What the messages on their way say holds. -/
  fits : ∀ msg ∈ s.net, s.Fits msg
  /-- An engine that is left out of the wave has work or will have it. -/
  leftOut : ∀ i, s.LeftOut i → s.Awake i
  /-- Work in the wave is known to all engines or calls the coordinator. -/
  called : ∀ i, (s.engines i).hasWork = true → s.AllRunning ∨ s.Called

theorem invariant_start : Invariant (System.start n m) := by
  constructor <;> simp [System.start, wave, Known, Started, LeftOut, EngineState.hasWork]

variable {s : System n m} {i : Fin (n + 1)}

private theorem called_of_startWave (h : .startWave i s.wave ∈ s.net) :
    s.Called := Or.inr (Or.inl ⟨i, h⟩)

private theorem called_of_notify {w : Nat} (hs : s.Known) (h : .notify i w ∈ s.net) :
    s.Called := Or.inr (Or.inr ⟨hs, Or.inl ⟨i, w, h⟩⟩)

private theorem called_of_firstReq {c : Fin m} (hs : s.Known) (h : .firstReq c i ∈ s.net) :
    s.Called := Or.inr (Or.inr ⟨hs, Or.inr ⟨c, i, h⟩⟩)

/-! ## Steps within a wave -/

/-- A step within a wave keeps what is known, started and called. -/
structure Keeps (s s' : System n m) : Prop where
  wave : s'.wave = s.wave
  known : s.Known → s'.Known
  started : s.Started → s'.Started
  allRunning : s.AllRunning → s'.AllRunning
  called : s.Called → s'.Called

/-- What a message says stays true within a wave. -/
theorem Keeps.fits {s s' : System n m} (k : Keeps s s') {msg : Message n m} (h : s.Fits msg) :
    s'.Fits msg := by
  cases msg with
  | add i w =>
    obtain ⟨hle, hcalled⟩ := h
    refine ⟨k.wave ▸ hle, fun hw => ?_⟩
    exact (hcalled (k.wave ▸ hw)).imp k.allRunning k.called
  | firstReq | notify => trivial
  | published c w running =>
    obtain ⟨hle, hknown⟩ := h
    refine ⟨k.wave ▸ hle, fun hw => ?_⟩
    exact (hknown (k.wave ▸ hw)).imp k.known fun hs hr => k.started (hs hr)
  | startDpWave i w x => exact ⟨k.wave ▸ h.1, fun hw => k.started (h.2 (k.wave ▸ hw))⟩
  | startWave i w =>
    change w ≤ s'.wave
    rw [k.wave]
    exact h
  | waveComplete w =>
    change w < s'.wave
    rw [k.wave]
    exact h

/-- An engine stays awake when work is kept and requests stay on their way or arrive. -/
theorem Awake.mono {s s' : System n m} (h : s.Awake i)
    (hwork : (s.engines i).hasWork = true → (s'.engines i).hasWork = true)
    (hadd : ∀ w, .add i w ∈ s.net → .add i w ∈ s'.net ∨ (s'.engines i).hasWork = true) :
    s'.Awake i := by
  obtain hi | ⟨w, hw⟩ := h
  · exact Or.inl (hwork hi)
  · obtain hw' | hi := hadd w hw
    · exact Or.inr ⟨w, hw'⟩
    · exact Or.inl hi

/-- The coordinator stays called when every message that calls it stays on its way or is
turned into another call. -/
theorem Called.mono {s s' : System n m} (h : s.Called) (hstarted : s.Started → s'.Called)
    (hstart : ∀ i, .startWave i s.wave ∈ s.net → s'.Called)
    (hnotify : s.Known → ∀ i w, .notify i w ∈ s.net → s'.Called)
    (hfirst : s.Known → ∀ c i, .firstReq c i ∈ s.net → s'.Called) : s'.Called := by
  obtain h | ⟨i, hi⟩ | ⟨hs, ⟨i, w, hi⟩ | ⟨c, i, hi⟩⟩ := h
  · exact hstarted h
  · exact hstart i hi
  · exact hnotify hs i w hi
  · exact hfirst hs c i hi

/-- An engine that is left out behind a step within a wave was left out before it, where the
step reports nothing, starts nothing and keeps what wakes the engine. -/
theorem LeftOut.before {s s' : System n m} (h : s'.LeftOut i) (hwave : s'.wave = s.wave)
    (hreport : .startWave i s.wave ∈ s'.net → .startWave i s.wave ∈ s.net)
    (hstarted : s'.Started → s.Started)
    (hwakes : ∀ msg ∈ s.net, msg.Wakes i s.wave → msg ∈ s'.net) : s.LeftOut i := by
  rw [LeftOut, hwave] at h
  exact h.imp hreport fun hs => ⟨hstarted hs.1, fun msg hm hw => hs.2 msg (hwakes msg hm hw) hw⟩

/-- A step within a wave keeps the invariant when what it changes in the parties and what it
sends is right. -/
theorem Invariant.of_keeps {s s' : System n m} (h : s.Invariant) (k : Keeps s s')
    (hwaves : ∀ i, (s'.engines i).currentWave = (s.engines i).currentWave)
    (hcounters : ∀ i, (s'.engines i).stepCounter = (s'.engines 0).stepCounter)
    (hcoordinator : s'.coordinator.currentWave ≤ s.wave)
    (hcompleting : s'.coordinator.currentWave < s.wave →
      ∃ w, w + 1 = s.wave ∧ .waveComplete w ∈ s'.net)
    (hclient : ∀ c, s'.clients c = s.clients c ∨ (s'.clients c).currentWave ≤ s.wave ∧
      ((s'.clients c).currentWave = s.wave → s'.Known ∧
        ((s'.clients c).enginesRunning = true → s'.Called)))
    (hsent : ∀ msg ∈ s'.net, msg ∈ s.net ∨ s'.Fits msg)
    (hleft : ∀ i, s'.LeftOut i → s'.Awake i)
    (hwork : ∀ i, (s'.engines i).hasWork = true →
      (s.engines i).hasWork = true ∨ s'.AllRunning ∨ s'.Called) : s'.Invariant where
  sameWave i := by rw [hwaves, h.sameWave, k.wave]
  sameCounter := hcounters
  coordinator_le := by rwa [k.wave]
  completing := by rwa [k.wave]
  client_le c := by
    rw [k.wave]
    obtain hc | hc := hclient c
    · rw [hc]
      exact h.client_le c
    · exact hc.1
  client_known c hc := by
    rw [k.wave] at hc
    obtain heq | hnew := hclient c
    · exact k.known (h.client_known c (heq ▸ hc))
    · exact (hnew.2 hc).1
  client_running c hc hrun := by
    rw [k.wave] at hc
    obtain heq | hnew := hclient c
    · exact k.called (h.client_running c (heq ▸ hc) (heq ▸ hrun))
    · exact (hnew.2 hc).2 hrun
  fits msg hm := by
    obtain hm | hfits := hsent msg hm
    · exact k.fits (h.fits msg hm)
    · exact hfits
  leftOut := hleft
  called i hi := by
    obtain hi | hcalled := hwork i hi
    · exact (h.called i hi).imp k.allRunning k.called
    · exact hcalled

/-! ## Front ends -/

/-- A step of a front end keeps the invariant when it keeps all messages but one that it works
off and sends requests and questions only. -/
theorem Invariant.ofClient {s s' : System n m} (h : s.Invariant)
    (hengines : s'.engines = s.engines) (hcoordinator : s'.coordinator = s.coordinator)
    (hold : ∀ msg ∈ s.net, msg ∈ s'.net ∨ (∃ c w running, msg = .published c w running) ∨
      ∃ c i j w, msg = .firstReq c i ∧ .notify j w ∈ s'.net)
    (hsent : ∀ msg ∈ s'.net, msg ∈ s.net ∨ (∃ i w, msg = .notify i w) ∨
      (∃ c i, msg = .firstReq c i) ∨ ∃ i w, msg = .add i w ∧ s'.Fits msg)
    (hclient : ∀ c, s'.clients c = s.clients c ∨ (s'.clients c).currentWave ≤ s.wave ∧
      ((s'.clients c).currentWave = s.wave → s'.Known ∧
        ((s'.clients c).enginesRunning = true → s'.Called))) : s'.Invariant := by
  have hkept : s'.wave = s.wave := by rw [wave, wave, hengines]
  have hknown : s'.Known ↔ s.Known := by rw [Known, Known, hcoordinator, hkept]
  have hstarted : s'.Started ↔ s.Started := by rw [Started, Started, hknown, hcoordinator]
  apply h.of_keeps
  case k =>
    refine ⟨hkept, hknown.mpr, hstarted.mpr, fun hs i => hengines ▸ hs i, fun hs => ?_⟩
    apply hs.mono
    · exact fun hst => Or.inl (hstarted.mpr hst)
    · intro i hm
      exact called_of_startWave (i := i) (hkept ▸ (hold _ hm).resolve_right (by simp))
    · intro hs i w hm
      exact called_of_notify (hknown.mpr hs) ((hold _ hm).resolve_right (by simp))
    · intro hs c i hm
      obtain hm | ⟨_, _, _, heq⟩ | ⟨_, _, j, w, _, hm⟩ := hold _ hm
      · exact called_of_firstReq (hknown.mpr hs) hm
      · cases heq
      · exact called_of_notify (hknown.mpr hs) hm
  case hwaves => exact fun i => by rw [hengines]
  case hcounters => exact hengines ▸ h.sameCounter
  case hcoordinator => exact hcoordinator ▸ h.coordinator_le
  case hcompleting =>
    intro hlt
    obtain ⟨w, hw, hm⟩ := h.completing (hcoordinator ▸ hlt)
    exact ⟨w, hw, (hold _ hm).resolve_right (by simp)⟩
  case hclient => exact hclient
  case hsent =>
    intro msg hm
    refine (hsent msg hm).imp_right ?_
    rintro (⟨i, w, rfl⟩ | ⟨c, i, rfl⟩ | ⟨i, w, rfl, hfits⟩)
    · trivial
    · trivial
    · exact hfits
  case hleft =>
    intro i hi
    refine (h.leftOut i (hi.before hkept ?_ hstarted.mp ?_)).mono (fun hw => hengines ▸ hw) ?_
    · exact fun hm => (hsent _ hm).resolve_right (by simp)
    · intro msg hm hw
      obtain hm | ⟨_, _, _, rfl⟩ | ⟨_, _, _, _, rfl, _⟩ := hold msg hm
      · exact hm
      · exact hw.elim
      · exact hw.elim
    · exact fun w hm => Or.inl ((hold _ hm).resolve_right (by simp))
  case hwork => exact fun i hi => Or.inl (hengines ▸ hi)

/-- A front end sends a request. -/
theorem Invariant.addRequestAsync (h : s.Invariant) (client : Fin m) (engine : Fin (n + 1)) :
    (s.addRequestAsync client engine).Invariant := by
  have hold : ∀ {msg}, msg ∈ s.net → msg ∈ (s.addRequestAsync client engine).net :=
    fun hm => List.mem_append_left _ hm
  apply h.ofClient
  case hengines => rfl
  case hcoordinator => rfl
  case hold => exact fun _ hm => Or.inl (hold hm)
  case hsent =>
    intro msg hm
    rw [System.addRequestAsync, List.mem_append, List.mem_cons] at hm
    obtain hm | rfl | hm := hm
    · exact Or.inl hm
    · refine Or.inr (Or.inr (Or.inr ⟨_, _, rfl, h.client_le client, fun hwave => Or.inr ?_⟩))
      have hknown := h.client_known client hwave
      cases hrun : (s.clients client).enginesRunning with
      | true =>
        apply (h.client_running client hwave hrun).mono
        · exact Or.inl
        · exact fun _ hm => called_of_startWave (hold hm)
        · exact fun hs _ _ hm => called_of_notify hs (hold hm)
        · exact fun hs _ _ hm => called_of_firstReq hs (hold hm)
      | false =>
        refine called_of_firstReq (s := s.addRequestAsync client engine) hknown
          (c := client) (i := engine) ?_
        simp [System.addRequestAsync, hrun]
    · split at hm
      · cases hm
      · exact Or.inr (Or.inr (Or.inl ⟨_, _, List.mem_singleton.mp hm⟩))
  case hclient => exact fun _ => Or.inl rfl

/-- A front end forwards a `FIRST_REQ`. -/
theorem Invariant.forwardFirstReq (h : s.Invariant) (client : Fin m) (engine : Fin (n + 1)) :
    (s.forwardFirstReq client engine).Invariant := by
  have hnotify : .notify engine (s.clients client).currentWave ∈
      (s.forwardFirstReq client engine).net :=
    List.mem_append_right _ List.mem_cons_self
  apply h.ofClient
  case hengines => rfl
  case hcoordinator => rfl
  case hold =>
    intro msg hm
    by_cases hne : msg = .firstReq client engine
    · exact Or.inr (Or.inr ⟨_, _, _, _, hne, hnotify⟩)
    · exact Or.inl (List.mem_append_left _ ((List.mem_erase_of_ne hne).mpr hm))
  case hsent =>
    intro msg hm
    refine (List.mem_append.mp hm).imp List.mem_of_mem_erase fun hm => ?_
    exact Or.inl ⟨_, _, List.mem_singleton.mp hm⟩
  case hclient =>
    intro c
    by_cases hc : c = client
    · subst hc
      have hwave : ((s.forwardFirstReq c engine).clients c).currentWave =
          (s.clients c).currentWave := by
        simp [System.forwardFirstReq]
      refine Or.inr ⟨hwave ▸ h.client_le c, fun hnow => ?_⟩
      have hknown := h.client_known c (hwave ▸ hnow)
      exact ⟨hknown, fun _ => called_of_notify hknown hnotify⟩
    · exact Or.inl (Function.update_of_ne hc _ _)

/-- A front end takes in a published state. -/
theorem Invariant.takePublished (h : s.Invariant) {client : Fin m} {wave : Nat} {running : Bool}
    (hmem : .published client wave running ∈ s.net) :
    (s.takePublished client wave running).Invariant := by
  apply h.ofClient
  case hengines => rfl
  case hcoordinator => rfl
  case hold =>
    intro msg hm
    by_cases hne : msg = .published client wave running
    · exact Or.inr (Or.inl ⟨_, _, _, hne⟩)
    · exact Or.inl ((List.mem_erase_of_ne hne).mpr hm)
  case hsent => exact fun _ hm => Or.inl (List.mem_of_mem_erase hm)
  case hclient =>
    intro c
    by_cases hc : c = client
    · subst hc
      have hclient : (s.takePublished c wave running).clients c = ⟨wave, running⟩ :=
        Function.update_self ..
      rw [hclient]
      obtain ⟨hle, hknown⟩ := h.fits _ hmem
      exact Or.inr ⟨hle, fun hwave => (hknown hwave).imp id fun hs hr => Or.inl (hs hr)⟩
    · exact Or.inl (Function.update_of_ne hc _ _)

/-! ## Engines -/

/-- A step of one engine within its wave keeps the invariant when it keeps the work of an engine
that is left out, works off only requests and broadcasts to this engine, and sends only calls. -/
theorem Invariant.setEngine {s s' : System n m} (h : s.Invariant) {e : EngineState}
    (hengines : s'.engines = Function.update s.engines i e)
    (hcoordinator : s'.coordinator = s.coordinator) (hclients : s'.clients = s.clients)
    (hwave : e.currentWave = (s.engines i).currentWave)
    (hcounter : e.stepCounter = (s.engines i).stepCounter)
    (hrunning : (s.engines i).enginesRunning = true → e.enginesRunning = true)
    (hwork : s.LeftOut i → (s.engines i).hasWork = true → e.hasWork = true)
    (hold : ∀ msg ∈ s.net, msg ∈ s'.net ∨ (∃ w, msg = .add i w ∧ e.hasWork = true) ∨
      ∃ w x, msg = .startDpWave i w x ∧
        (w = s.wave → x ≠ some (.index i) → e.hasWork = true))
    (hsent : ∀ msg ∈ s'.net, msg ∈ s.net ∨ msg = .startWave i s.wave ∧ e.hasWork = true)
    (hnew : e.hasWork = true → (s.engines i).hasWork = true ∨ s.AllRunning ∨ s.Called ∨
      .startWave i s.wave ∈ s'.net) : s'.Invariant := by
  have hself : s'.engines i = e := by rw [hengines, Function.update_self]
  have hothers : ∀ {j}, j ≠ i → s'.engines j = s.engines j := fun hj => by
    rw [hengines, Function.update_of_ne hj]
  have hkept : s'.wave = s.wave := by
    by_cases hi : 0 = i
    · subst hi
      exact (congrArg EngineState.currentWave hself).trans hwave
    · exact congrArg EngineState.currentWave (hothers hi)
  have hknown : s'.Known ↔ s.Known := by rw [Known, Known, hcoordinator, hkept]
  have hstarted : s'.Started ↔ s.Started := by rw [Started, Started, hknown, hcoordinator]
  have hcalled : s.Called → s'.Called := by
    intro hs
    apply hs.mono
    · exact fun hst => Or.inl (hstarted.mpr hst)
    · intro j hm
      exact called_of_startWave (i := j) (hkept ▸ (hold _ hm).resolve_right (by simp))
    · intro hs j w hm
      exact called_of_notify (hknown.mpr hs) ((hold _ hm).resolve_right (by simp))
    · intro hs c j hm
      exact called_of_firstReq (hknown.mpr hs) ((hold _ hm).resolve_right (by simp))
  have hall : s.AllRunning → s'.AllRunning := by
    intro hs j
    by_cases hi : j = i
    · subst hi
      exact hself ▸ hrunning (hs j)
    · exact hothers hi ▸ hs j
  apply h.of_keeps
  case k => exact ⟨hkept, hknown.mpr, hstarted.mpr, hall, hcalled⟩
  case hwaves =>
    intro j
    by_cases hi : j = i
    · subst hi
      rw [hself, hwave]
    · rw [hothers hi]
  case hcounters =>
    have hsteps : ∀ j, (s'.engines j).stepCounter = (s.engines j).stepCounter := by
      intro j
      by_cases hi : j = i
      · subst hi
        rw [hself, hcounter]
      · rw [hothers hi]
    intro j
    rw [hsteps, hsteps, h.sameCounter]
  case hcoordinator => exact hcoordinator ▸ h.coordinator_le
  case hcompleting =>
    intro hlt
    obtain ⟨w, hw, hm⟩ := h.completing (hcoordinator ▸ hlt)
    exact ⟨w, hw, (hold _ hm).resolve_right (by simp)⟩
  case hclient => exact fun c => Or.inl (congrFun hclients c)
  case hsent =>
    intro msg hm
    refine (hsent msg hm).imp_right ?_
    rintro ⟨rfl, _⟩
    exact Nat.le_of_eq hkept.symm
  case hleft =>
    intro j hj
    by_cases hbusy : (s'.engines j).hasWork = true
    · exact Or.inl hbusy
    have hidle : i = j → e.hasWork ≠ true := by
      rintro rfl
      rwa [hself] at hbusy
    have hbefore : s.LeftOut j := by
      apply hj.before hkept _ hstarted.mp
      · intro msg hm hwakes
        obtain hm | ⟨_, rfl, _⟩ | ⟨w, x, rfl, hw⟩ := hold msg hm
        · exact hm
        · exact hwakes.elim
        · obtain ⟨hij, hnow, hne⟩ := hwakes
          exact absurd (hw hnow (hij ▸ hne)) (hidle hij)
      · intro hm
        obtain hm | ⟨heq, hw⟩ := hsent _ hm
        · exact hm
        · exact absurd hw (hidle (Message.startWave.inj heq).1.symm)
    refine (h.leftOut j hbefore).mono (fun hw => ?_) fun w hm => ?_
    · by_cases hi : j = i
      · subst hi
        exact hself ▸ hwork hbefore hw
      · exact hothers hi ▸ hw
    · obtain hm | ⟨_, heq, hw⟩ | ⟨_, _, heq, _⟩ := hold _ hm
      · exact Or.inl hm
      · exact absurd hw (hidle (Message.add.inj heq).1.symm)
      · cases heq
  case hwork =>
    intro j hj
    by_cases hi : j = i
    · subst hi
      rw [hself] at hj
      obtain hw | hs | hs | hm := hnew hj
      · exact Or.inl hw
      · exact Or.inr (Or.inl (hall hs))
      · exact Or.inr (Or.inr (hcalled hs))
      · exact Or.inr (Or.inr (called_of_startWave (i := j) (hkept ▸ hm)))
    · exact Or.inl (hothers hi ▸ hj)

/-- A request of no later wave adds to the engine's work, and the engine reports it where it
is paused and the request is of an earlier wave. -/
private theorem addRequest_eq {e : EngineState} {wave requestWave : Nat}
    (hwave : e.currentWave = wave) (hle : requestWave ≤ wave) :
    Waves.addRequest (m := m) i e requestWave = ({ e with unfinished := e.unfinished + 1 },
      if requestWave < wave ∧ e.enginesRunning = false then [.startWave i wave] else []) := by
  subst hwave
  rcases Nat.lt_or_eq_of_le hle with hlt | heq
  · cases hrun : e.enginesRunning <;>
      simp [Waves.addRequest, hlt, Nat.ne_of_lt hlt, Nat.not_lt_of_le hle, hrun]
  · simp [Waves.addRequest, heq]

/-- An engine receives a request. -/
theorem Invariant.addRequest (h : s.Invariant) {engine : Fin (n + 1)} {wave : Nat}
    (hmem : .add engine wave ∈ s.net) : (s.step (.addRequest engine wave)).Invariant := by
  obtain ⟨hle, hcalled⟩ := h.fits _ hmem
  rw [System.step, addRequest_eq (h.sameWave engine) hle]
  apply h.setEngine (i := engine)
    (e := { s.engines engine with unfinished := (s.engines engine).unfinished + 1 })
  case hengines => rfl
  case hcoordinator => rfl
  case hclients => rfl
  case hwave => rfl
  case hcounter => rfl
  case hrunning => exact id
  case hwork => simp [EngineState.hasWork]
  case hold =>
    intro msg hm
    by_cases hne : msg = .add engine wave
    · exact Or.inr (Or.inl ⟨wave, hne, by simp [EngineState.hasWork]⟩)
    · exact Or.inl (List.mem_append_left _ ((List.mem_erase_of_ne hne).mpr hm))
  case hsent =>
    intro msg hm
    refine (List.mem_append.mp hm).imp List.mem_of_mem_erase fun hm => ?_
    split at hm
    · exact ⟨List.mem_singleton.mp hm, by simp [EngineState.hasWork]⟩
    · cases hm
  case hnew =>
    intro _
    rcases Nat.lt_or_eq_of_le hle with hlt | hnow
    · cases hrun : (s.engines engine).enginesRunning with
      | true => exact Or.inl (by simp [EngineState.hasWork, hrun])
      | false => exact Or.inr (Or.inr (Or.inr (List.mem_append_right _ (by simp [hlt]))))
    · exact Or.inr ((hcalled hnow).imp_right Or.inl)

/-- An engine receives `START_DP_WAVE`. -/
theorem Invariant.startDpWave (h : s.Invariant) {engine : Fin (n + 1)} {wave : Nat}
    {exclude : Option (EngineName n)} (hmem : .startDpWave engine wave exclude ∈ s.net) :
    (s.step (.startDpWave engine wave exclude)).Invariant := by
  obtain ⟨hle, hstarted⟩ := h.fits _ hmem
  have hsame := h.sameWave engine
  rw [System.step]
  apply h.setEngine (i := engine)
    (e := handleStartDpWave engine (s.engines engine) wave exclude)
  case hengines => rfl
  case hcoordinator => rfl
  case hclients => rfl
  case hwave =>
    unfold handleStartDpWave
    split
    next hnow => exact Nat.le_antisymm (hsame ▸ hle) hnow.2
    next => rfl
  case hcounter =>
    unfold handleStartDpWave
    split <;> rfl
  case hrunning =>
    intro hrun
    unfold handleStartDpWave
    split
    · rfl
    · exact hrun
  case hwork =>
    intro _ hw
    unfold handleStartDpWave
    split
    · rfl
    · exact hw
  case hold =>
    intro msg hm
    by_cases hne : msg = .startDpWave engine wave exclude
    · refine Or.inr (Or.inr ⟨wave, exclude, hne, fun hnow hothers => ?_⟩)
      rw [handleStartDpWave, if_pos ⟨hothers, Nat.le_of_eq (hsame.trans hnow.symm)⟩]
      rfl
    · exact Or.inl (List.mem_append_left _ ((List.mem_erase_of_ne hne).mpr hm))
  case hsent =>
    intro msg hm
    exact Or.inl (List.mem_of_mem_erase ((List.mem_append.mp hm).resolve_right List.not_mem_nil))
  case hnew =>
    unfold handleStartDpWave
    split
    next hnow =>
      intro _
      exact Or.inr (Or.inr (Or.inl (Or.inl (hstarted (Nat.le_antisymm hle (hsame ▸ hnow.2))))))
    next => exact Or.inl

/-- An engine drops an aborted request, and still has work where it is left out of the wave. -/
theorem Invariant.abort (h : s.Invariant) {engine : Fin (n + 1)}
    (horderly : s.Orderly (.abort engine)) : (s.step (.abort engine)).Invariant := by
  rw [System.step]
  apply h.setEngine (i := engine)
    (e := { s.engines engine with unfinished := (s.engines engine).unfinished - 1 })
  case hengines => rfl
  case hcoordinator => rfl
  case hclients => rfl
  case hwave => rfl
  case hcounter => rfl
  case hrunning => exact id
  case hwork =>
    intro hleft _
    simp only [EngineState.hasWork, Bool.or_eq_true, decide_eq_true_eq]
    obtain hrun | hlt | hnot := horderly
    · exact Or.inl hrun
    · exact Or.inr (Nat.sub_pos_of_lt hlt)
    · exact absurd hleft hnot
  case hold => exact fun _ hm => Or.inl (List.mem_append_left _ hm)
  case hsent =>
    exact fun _ hm => Or.inl ((List.mem_append.mp hm).resolve_right List.not_mem_nil)
  case hnew =>
    intro hw
    left
    simp only [EngineState.hasWork, Bool.or_eq_true, decide_eq_true_eq] at hw ⊢
    exact hw.imp_right fun hlt => Nat.lt_of_lt_of_le hlt (Nat.sub_le _ _)

/-! ## The coordinator -/

/-- A step of the coordinator keeps the invariant when it never forgets the wave, starts the
wave where it works off a call of this wave, and leaves out only engines that were left out. -/
theorem Invariant.ofCoordinator {s s' : System n m} (h : s.Invariant)
    (hengines : s'.engines = s.engines) (hclients : s'.clients = s.clients)
    (hle : s'.coordinator.currentWave ≤ s.wave)
    (hcompleting : s'.coordinator.currentWave < s.wave →
      ∃ w, w + 1 = s.wave ∧ .waveComplete w ∈ s'.net)
    (hknown : s.Known → s'.Known) (hstarted : s.Started → s'.Started)
    (hold : ∀ msg ∈ s.net, msg ∈ s'.net ∨
      (∃ i w, msg = .notify i w ∧ (s.Known → s'.Started)) ∨
      (∃ i w, msg = .startWave i w ∧ (w = s.wave → s'.Started)) ∨ ∃ w, msg = .waveComplete w)
    (hsent : ∀ msg ∈ s'.net, msg ∈ s.net ∨ s'.Fits msg)
    (hleft : ∀ i, s'.LeftOut i → s.LeftOut i) : s'.Invariant := by
  have hkept : s'.wave = s.wave := by rw [wave, wave, hengines]
  apply h.of_keeps
  case k =>
    refine ⟨hkept, hknown, hstarted, fun hs i => hengines ▸ hs i, fun hs => ?_⟩
    apply hs.mono
    · exact fun hst => Or.inl (hstarted hst)
    · intro i hm
      obtain hm | ⟨_, _, heq, _⟩ | ⟨_, _, heq, hnow⟩ | ⟨_, heq⟩ := hold _ hm
      · exact called_of_startWave (i := i) (hkept ▸ hm)
      · cases heq
      · exact Or.inl (hnow (Message.startWave.inj heq).2.symm)
      · cases heq
    · intro hs i w hm
      obtain hm | ⟨_, _, _, hnow⟩ | ⟨_, _, heq, _⟩ | ⟨_, heq⟩ := hold _ hm
      · exact called_of_notify (hknown hs) hm
      · exact Or.inl (hnow hs)
      · cases heq
      · cases heq
    · intro hs c i hm
      exact called_of_firstReq (hknown hs) ((hold _ hm).resolve_right (by simp))
  case hwaves => exact fun i => by rw [hengines]
  case hcounters => exact hengines ▸ h.sameCounter
  case hcoordinator => exact hle
  case hcompleting => exact hcompleting
  case hclient => exact fun c => Or.inl (congrFun hclients c)
  case hsent => exact hsent
  case hleft =>
    intro i hi
    refine (h.leftOut i (hleft i hi)).mono (fun hw => hengines ▸ hw) fun w hm => ?_
    exact Or.inl ((hold _ hm).resolve_right (by simp))
  case hwork => exact fun i hi => Or.inl (hengines ▸ hi)

/-- The coordinator publishes its state. -/
theorem Invariant.publish (h : s.Invariant) :
    Invariant { s with net := s.net ++ Waves.publish s.coordinator } := by
  have hpublished : ∀ msg ∈ s.net ++ Waves.publish s.coordinator, msg ∈ s.net ∨ ∃ c, msg =
      .published c s.coordinator.currentWave s.coordinator.enginesRunning := by
    intro msg hm
    refine (List.mem_append.mp hm).imp_right fun hm => ?_
    obtain ⟨c, -, rfl⟩ := List.mem_map.mp hm
    exact ⟨c, rfl⟩
  apply h.ofCoordinator
  case hengines => rfl
  case hclients => rfl
  case hle => exact h.coordinator_le
  case hcompleting =>
    intro hlt
    obtain ⟨w, hw, hm⟩ := h.completing hlt
    exact ⟨w, hw, List.mem_append_left _ hm⟩
  case hknown => exact id
  case hstarted => exact id
  case hold => exact fun _ hm => Or.inl (List.mem_append_left _ hm)
  case hsent =>
    intro msg hm
    refine (hpublished msg hm).imp_right ?_
    rintro ⟨c, rfl⟩
    exact ⟨h.coordinator_le, fun hnow => ⟨hnow, fun hrun => ⟨hnow, hrun⟩⟩⟩
  case hleft =>
    intro i hi
    refine hi.before (s := s) rfl ?_ id ?_
    · exact fun hm => (hpublished _ hm).resolve_right (by simp)
    · exact fun _ hm _ => List.mem_append_left _ hm

/-- A broadcast reaches every engine. -/
theorem mem_sendStartWave {msg : Message n m} {wave : Nat} {exclude : Option (EngineName n)} :
    msg ∈ sendStartWave wave exclude ↔ ∃ i, msg = .startDpWave i wave exclude := by
  simp only [sendStartWave, List.mem_map, List.mem_finRange, true_and, eq_comm]

/-- A message that the coordinator has no more use for may be dropped. -/
theorem Invariant.ignore (h : s.Invariant) {msg : Message n m}
    (hmsg : (∃ i w, msg = .notify i w ∧ (s.Known → s.Started)) ∨
      (∃ i w, msg = .startWave i w ∧ (w = s.wave → s.Started)) ∨
      ∃ w, msg = .waveComplete w ∧ w < s.coordinator.currentWave) (changed : Bool) :
    ((s.receive msg).setCoordinator (s.coordinator, [], changed)).Invariant := by
  have hold : ∀ {msg'}, msg' ∈ s.net → msg' ≠ msg → msg' ∈ s.net.erase msg ++ [] :=
    fun hm hne => List.mem_append_left _ ((List.mem_erase_of_ne hne).mpr hm)
  have hbefore : ∀ {msg'}, msg' ∈ s.net.erase msg ++ [] → msg' ∈ s.net :=
    fun hm => List.mem_of_mem_erase ((List.mem_append.mp hm).resolve_right List.not_mem_nil)
  apply h.ofCoordinator
  case hengines => rfl
  case hclients => rfl
  case hle => exact h.coordinator_le
  case hcompleting =>
    intro hlt
    obtain ⟨w, hw, hm⟩ := h.completing hlt
    refine ⟨w, hw, hold hm fun heq => ?_⟩
    obtain ⟨_, _, rfl, _⟩ | ⟨_, _, rfl, _⟩ | ⟨w', rfl, hw'⟩ := hmsg
    · cases heq
    · cases heq
    · have hlt' : s.coordinator.currentWave < s.wave := hlt
      have hsame := Message.waveComplete.inj heq
      omega
  case hknown => exact id
  case hstarted => exact id
  case hold =>
    intro msg' hm
    by_cases hne : msg' = msg
    · right
      subst hne
      exact hmsg.imp_right fun hmsg => hmsg.imp_right fun ⟨w, hw, _⟩ => ⟨w, hw⟩
    · exact Or.inl (hold hm hne)
  case hsent => exact fun _ hm => Or.inl (hbefore hm)
  case hleft =>
    intro i hi
    refine hi.before (s := s) rfl hbefore id ?_
    intro msg' hm hwakes
    apply hold hm
    rintro rfl
    obtain ⟨_, _, rfl, _⟩ | ⟨_, _, rfl, _⟩ | ⟨_, rfl, _⟩ := hmsg <;> exact hwakes

/-- A call of a started or unknown wave that makes the coordinator start its wave. -/
theorem Invariant.start (h : s.Invariant) {msg : Message n m} {wave : Nat}
    {exclude : Option (EngineName n)} {changed : Bool} (hle : wave ≤ s.wave)
    (hahead : s.coordinator.currentWave ≤ wave) (hmsg : (∃ i w, msg = .notify i w) ∨
      ∃ i w, msg = .startWave i w ∧ (w = s.wave → wave = s.wave))
    (hexclude : wave = s.wave → ∀ i, exclude = some (.index i) → s.LeftOut i) :
    ((s.receive msg).setCoordinator
      (⟨wave, true⟩, sendStartWave wave exclude, changed)).Invariant := by
  have hold : ∀ {msg'}, msg' ∈ s.net → msg' ≠ msg →
      msg' ∈ s.net.erase msg ++ sendStartWave wave exclude :=
    fun hm hne => List.mem_append_left _ ((List.mem_erase_of_ne hne).mpr hm)
  have hknown : s.Known → wave = s.wave := fun hs => by
    have hnow : s.coordinator.currentWave = s.wave := hs
    omega
  apply h.ofCoordinator
  case hengines => rfl
  case hclients => rfl
  case hle => exact hle
  case hcompleting =>
    intro hlt
    have hlt' : wave < s.wave := hlt
    obtain ⟨w, hw, hm⟩ := h.completing (by omega)
    refine ⟨w, hw, hold hm fun heq => ?_⟩
    obtain ⟨_, _, rfl⟩ | ⟨_, _, rfl, _⟩ := hmsg <;> cases heq
  case hknown => exact hknown
  case hstarted => exact fun hs => ⟨hknown hs.1, rfl⟩
  case hold =>
    intro msg' hm
    by_cases hne : msg' = msg
    · right
      subst hne
      exact hmsg.imp (fun ⟨i, w, heq⟩ => ⟨i, w, heq, fun hs => ⟨hknown hs, rfl⟩⟩)
        fun ⟨i, w, heq, hw⟩ => Or.inl ⟨i, w, heq, fun hnow => ⟨hw hnow, rfl⟩⟩
    · exact Or.inl (hold hm hne)
  case hsent =>
    intro msg' hm
    refine (List.mem_append.mp hm).imp List.mem_of_mem_erase fun hm => ?_
    obtain ⟨i, rfl⟩ := mem_sendStartWave.mp hm
    exact ⟨hle, fun hnow => ⟨hnow, rfl⟩⟩
  case hleft =>
    rintro i (hm | ⟨hs, hsleeps⟩)
    · obtain hm | hm := List.mem_append.mp hm
      · exact Or.inl (List.mem_of_mem_erase hm)
      · obtain ⟨_, heq⟩ := mem_sendStartWave.mp hm
        cases heq
    · -- The broadcast itself is on its way, so only the engine that it names is left out.
      apply hexclude hs.1 i
      by_contra hne
      exact hsleeps _ (List.mem_append_right _ (mem_sendStartWave.mpr ⟨i, rfl⟩)) ⟨rfl, hs.1, hne⟩

/-- The coordinator handles a notification of a front end. -/
theorem Invariant.pollFront (h : s.Invariant) (engine : Fin (n + 1)) (wave : Nat) :
    (s.pollFront engine wave).1.Invariant := by
  rw [System.pollFront, handleFront]
  cases hrun : s.coordinator.enginesRunning with
  | true =>
    rw [if_pos rfl]
    exact h.ignore (Or.inl ⟨engine, wave, rfl, fun hs => ⟨hs, hrun⟩⟩) _
  | false =>
    rw [if_neg Bool.false_ne_true]
    apply h.start h.coordinator_le (Nat.le_refl _)
    case hmsg => exact Or.inl ⟨engine, wave, rfl⟩
    case hexclude =>
      intro _ i hi
      split at hi <;> cases hi

/-- The coordinator handles a report of an engine. -/
theorem Invariant.pollBack_startWave (h : s.Invariant) {engine : Fin (n + 1)} {wave : Nat}
    (hmem : .startWave engine wave ∈ s.net) :
    (s.pollBack (.startWave engine wave)).1.Invariant := by
  have hle : wave ≤ s.wave := h.fits _ hmem
  have hcoordinator := h.coordinator_le
  rw [System.pollBack]
  simp only [handleStartWave]
  split
  next hstart =>
    apply h.start hle (by omega)
    case hmsg => exact Or.inr ⟨engine, wave, rfl, id⟩
    case hexclude =>
      intro hnow i hi
      cases hi
      exact Or.inl (hnow ▸ hmem)
  next hstart =>
    refine h.ignore (Or.inr (Or.inl ⟨engine, wave, rfl, fun hnow => ?_⟩)) _
    have hknown : s.coordinator.currentWave = s.wave := by omega
    refine ⟨hknown, ?_⟩
    cases hrun : s.coordinator.enginesRunning with
    | true => rfl
    | false => exact absurd (Or.inr ⟨hnow.trans hknown.symm, by rw [hrun]; rfl⟩) hstart

/-- The coordinator handles the end of a wave. -/
theorem Invariant.pollBack_waveComplete (h : s.Invariant) {wave : Nat}
    (hmem : .waveComplete wave ∈ s.net) : (s.pollBack (.waveComplete wave)).1.Invariant := by
  have hlt : wave < s.wave := h.fits _ hmem
  have hold : ∀ {msg : Message n m} {sent}, msg ∈ s.net → msg ≠ .waveComplete wave →
      msg ∈ s.net.erase (.waveComplete wave) ++ sent :=
    fun hm hne => List.mem_append_left _ ((List.mem_erase_of_ne hne).mpr hm)
  rw [System.pollBack]
  simp only [handleWaveComplete]
  split
  next hbehind =>
    have hunknown : ¬ s.Known := fun hs => by
      have hnow : s.coordinator.currentWave = s.wave := hs
      omega
    apply h.ofCoordinator
    case hengines => rfl
    case hclients => rfl
    case hle => exact hlt
    case hcompleting =>
      intro hlt'
      obtain ⟨w, hw, hm⟩ := h.completing (by omega)
      refine ⟨w, hw, hold hm fun heq => ?_⟩
      have hlt'' : wave + 1 < s.wave := hlt'
      have hsame := Message.waveComplete.inj heq
      omega
    case hknown => exact fun hs => absurd hs hunknown
    case hstarted => exact fun hs => absurd hs.1 hunknown
    case hold =>
      intro msg hm
      by_cases hne : msg = .waveComplete wave
      · exact Or.inr (Or.inr (Or.inr ⟨wave, hne⟩))
      · exact Or.inl (hold hm hne)
    case hsent =>
      exact fun _ hm => Or.inl (List.mem_of_mem_erase
        ((List.mem_append.mp hm).resolve_right List.not_mem_nil))
    case hleft =>
      rintro i (hm | hs)
      · exact Or.inl (List.mem_of_mem_erase
          ((List.mem_append.mp hm).resolve_right List.not_mem_nil))
      · exact absurd hs.1.2 Bool.false_ne_true
  next hahead => exact h.ignore (Or.inr (Or.inr ⟨wave, rfl, by omega⟩)) _

/-- The front half of a turn keeps the invariant. -/
theorem Invariant.receiveFront (h : s.Invariant) (front : Option (Fin (n + 1) × Nat)) :
    (s.receiveFront front).1.Invariant := by
  cases front with
  | none => exact h
  | some f => exact h.pollFront f.1 f.2

/-- The front half of a turn leaves what engines have sent. -/
theorem toMessage_mem_receiveFront {msg : BackMessage n} (hmsg : msg.toMessage ∈ s.net)
    (front : Option (Fin (n + 1) × Nat)) : msg.toMessage ∈ (s.receiveFront front).1.net := by
  cases front with
  | none => exact hmsg
  | some f =>
    apply List.mem_append_left
    apply (List.mem_erase_of_ne _).mpr hmsg
    cases msg <;> simp [BackMessage.toMessage]

/-- The back half of a turn keeps the invariant. -/
theorem Invariant.receiveBack (h : s.Invariant) {back : Option (BackMessage n)}
    (hback : ∀ msg ∈ back, msg.toMessage ∈ s.net) : (s.receiveBack back).1.Invariant := by
  cases back with
  | none => exact h
  | some msg =>
    cases msg with
    | startWave engine wave => exact h.pollBack_startWave (hback _ rfl)
    | waveComplete wave => exact h.pollBack_waveComplete (hback _ rfl)

/-- One turn of the coordinator. -/
theorem Invariant.poll (h : s.Invariant) {front : Option (Fin (n + 1) × Nat)}
    {back : Option (BackMessage n)} (henabled : s.Enabled (.poll front back)) :
    (s.poll front back).Invariant := by
  have hsecond := (h.receiveFront front).receiveBack fun msg hmsg =>
    toMessage_mem_receiveFront (henabled.2 msg hmsg) front
  unfold System.poll
  dsimp only
  split
  · exact hsecond.publish
  · exact hsecond

/-! ## Passes -/

/-- A forward pass of all engines: the wave goes on everywhere, or ends everywhere. -/
theorem Invariant.pass (h : s.Invariant) (finished : Fin (n + 1) → Nat) :
    (s.pass finished).Invariant := by
  rw [System.pass, Fin.zero_eta]
  generalize hany : ((List.finRange (n + 1)).any fun i =>
    decide (finished i < (s.engines i).unfinished)) = anyUnfinished
  cases hglobal : hasGlobalUnfinishedReqs ((s.engines 0).stepCounter + 1) anyUnfinished with
  | true =>
    have hengine : ∀ i, finishPass (s.engines i) (finished i) anyUnfinished =
        { s.engines i with
          unfinished := (s.engines i).unfinished - finished i
          stepCounter := (s.engines 0).stepCounter + 1
          enginesRunning := true } := by
      intro i
      simp only [finishPass, h.sameCounter i, hglobal, if_true]
    simp only [hengine, if_true]
    apply h.of_keeps
    case k =>
      refine ⟨rfl, id, id, fun _ _ => rfl, fun hs => ?_⟩
      apply hs.mono
      · exact Or.inl
      · exact fun i hm => called_of_startWave (i := i) (List.mem_append_left _ hm)
      · exact fun hs i w hm => called_of_notify hs (List.mem_append_left _ hm)
      · exact fun hs c i hm => called_of_firstReq hs (List.mem_append_left _ hm)
    case hwaves => exact fun _ => rfl
    case hcounters => exact fun _ => rfl
    case hcoordinator => exact h.coordinator_le
    case hcompleting =>
      intro hlt
      obtain ⟨w, hw, hm⟩ := h.completing hlt
      exact ⟨w, hw, List.mem_append_left _ hm⟩
    case hclient => exact fun _ => Or.inl rfl
    case hsent =>
      exact fun _ hm => Or.inl ((List.mem_append.mp hm).resolve_right List.not_mem_nil)
    case hleft => exact fun _ _ => Or.inl rfl
    case hwork => exact fun _ _ => Or.inr (Or.inl fun _ => rfl)
  | false =>
    have hnone : anyUnfinished = false := by
      rw [hasGlobalUnfinishedReqs] at hglobal
      split at hglobal
      · cases hglobal
      · exact hglobal
    have hdone : ∀ i, (s.engines i).unfinished - finished i = 0 := by
      intro i
      rw [hnone, List.any_eq_false] at hany
      have hi := hany i (List.mem_finRange i)
      rw [decide_eq_true_eq] at hi
      omega
    have hengine : ∀ i, finishPass (s.engines i) (finished i) anyUnfinished =
        ⟨0, s.wave + 1, false, 0⟩ := by
      intro i
      simp only [finishPass, h.sameCounter i, hglobal, Bool.false_eq_true, if_false, h.sameWave i,
        hdone i]
    simp only [hengine, Bool.false_eq_true, if_false]
    have hclient : ∀ c, (s.clients c).currentWave ≠ s.wave + 1 := fun c heq => by
      have hle := h.client_le c
      omega
    have hunknown : s.coordinator.currentWave ≠ s.wave + 1 := fun heq => by
      have hle := h.coordinator_le
      omega
    constructor
    case sameWave => exact fun _ => rfl
    case sameCounter => exact fun _ => rfl
    case coordinator_le => exact Nat.le_succ_of_le h.coordinator_le
    case completing =>
      exact fun _ => ⟨s.wave, rfl, List.mem_append_right _ List.mem_cons_self⟩
    case client_le => exact fun c => Nat.le_succ_of_le (h.client_le c)
    case client_known => exact fun c hc => absurd hc (hclient c)
    case client_running => exact fun c hc _ => absurd hc (hclient c)
    case fits =>
      intro msg hm
      obtain hm | hm := List.mem_append.mp hm
      · have hfits := h.fits msg hm
        cases msg with
        | firstReq | notify => trivial
        | startWave i w => exact Nat.le_succ_of_le hfits
        | waveComplete w => exact Nat.lt_succ_of_lt hfits
        | _ => exact ⟨Nat.le_succ_of_le hfits.1, fun hnow => absurd (hnow ▸ hfits.1)
            (Nat.not_succ_le_self _)⟩
      · obtain rfl := List.mem_singleton.mp hm
        exact Nat.lt_succ_self _
    case leftOut =>
      rintro i (hm | hs)
      · obtain hm | hm := List.mem_append.mp hm
        · exact absurd (h.fits _ hm) (Nat.not_succ_le_self _)
        · cases List.mem_singleton.mp hm
      · exact absurd hs.1.1 hunknown
    case called => exact fun i hi => absurd hi (by simp [EngineState.hasWork])

/-! ## Runs -/

/-- Every orderly step that can be taken keeps the invariant. -/
theorem Invariant.step (h : s.Invariant) {a : Action n m} (henabled : s.Enabled a)
    (horderly : s.Orderly a) : (s.step a).Invariant := by
  cases a with
  | addRequestAsync client engine => exact h.addRequestAsync client engine
  | forwardFirstReq client engine => exact h.forwardFirstReq client engine
  | takePublished client wave running => exact h.takePublished henabled
  | addRequest engine wave => exact h.addRequest henabled
  | startDpWave engine wave exclude => exact h.startDpWave henabled
  | abort engine => exact h.abort horderly
  | pass finished => exact h.pass finished
  | poll front back => exact h.poll henabled
  | publish => exact h.publish

/-- The invariant holds at the end of every orderly run. -/
theorem invariant_run {l : List (Action n m)}
    (hl : TotalRun.Throughout System.step (fun s a => s.Enabled a ∧ s.Orderly a)
      (System.start n m) l) : (l.foldl System.step (System.start n m)).Invariant :=
  TotalRun.invariant (fun _ _ h ha => h.step ha.1 ha.2) invariant_start hl

end System

end Vllm.Distributed.Waves
