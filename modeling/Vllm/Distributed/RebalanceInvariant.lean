import Vllm.Distributed.AsyncRebalance

/-!
# What holds between the threads

A model goes through the stages of a rearrangement: each tells the model's fields, the layers
that were moved, and where the threads can be. A statement of a thread leads from a stage of its
model to a stage, and does not touch the other models.
-/

namespace Vllm.Distributed

variable {R : Type}

/-! ## The threads, as a model sees them -/

/-- The main thread, as a model sees it. -/
inductive MainView where
  | elsewhere
  | moving (stmt : MoveStmt)
  | starting (stmt : RearrangeStmt)
  deriving DecidableEq, Repr

/-- What a model sees of the main thread. -/
def MainPc.view (i : Nat) : MainPc → MainView
  | .move i' stmt => if i' = i then .moving stmt else .elsewhere
  | .rearrange i' stmt => if i' = i then .starting stmt else .elsewhere
  | _ => .elsewhere

/-- The main thread holds the lock. -/
def MainView.holdsLock : MainView → Bool
  | .moving .acquire => false
  | .moving _ => true
  | _ => false

/-- What a model sees of the background thread: its own loop. -/
def WorkerPc.looping (i : Nat) : WorkerPc R → Option (LayerLoop R)
  | .loop l => if l.model = i then some l else none
  | _ => none

namespace LoopStmt

/-- The statement looks at the flags only. -/
def lookout : LoopStmt R → Bool
  | .whileTest | .flagTest | .elseTest => true
  | _ => false

/-- The statement runs with the lock. -/
def holdsLock : LoopStmt R → Bool
  | .whileTest | .flagTest | .elseTest | .acquire => false
  | _ => true

end LoopStmt

/-- The background thread is elsewhere, or looks at the flags of the model only. -/
def Lookout (looping : Option (LayerLoop R)) : Prop :=
  ∀ l, looping = some l → l.stmt.lookout = true

/-- The lock is held by the thread that is at a statement under it. -/
structure Locks (main : MainView) (looping : Option (LayerLoop R)) (m : EplbModelState R) :
    Prop where
  main : main.holdsLock = true ↔ m.bufferLock = some .main
  worker : (∃ l, looping = some l ∧ l.stmt.holdsLock = true) ↔ m.bufferLock = some .worker

/-! ## The stages of a model -/

namespace EplbModelState

variable (config : EplbConfig R) (i : Nat) (m : EplbModelState R)

/-- The new map of a rearrangement. -/
def newMapOf (g : Nat) : Nat → R := config.rebalanceExperts i g (m.startMaps g)

/-- The first moves of a rearrangement. -/
def firstMoves (g k : Nat) : List (LayerMove R) :=
  (List.range k).map fun layer =>
    ⟨layer, some (m.newMapOf config i g layer), some (layer, m.newMapOf config i g layer)⟩

/-- The rearrangement in progress moved its first layers, and the others have their rows. -/
def Moved (k : Nat) : Prop :=
  m.moves m.generation = m.firstMoves config i m.generation k ∧
    ∀ layer ≥ k, m.physicalToLogicalMap layer = m.startMaps m.generation layer

/-- The fields that both threads test. -/
def Flags (rebalanced epBufferReady : Bool) (layerToTransfer : Nat)
    (newMap : Option (Nat → R)) : Prop :=
  m.rebalanced = rebalanced ∧ m.epBufferReady = epBufferReady ∧
    m.layerToTransfer = layerToTransfer ∧ m.newPhysicalToLogicalMap = newMap

/-- The earlier rearrangements moved all layers, later ones none. -/
structure History : Prop where
  past : ∀ g, 0 < g → g < m.generation →
    m.moves g = m.firstMoves config i g (config.numMoeLayers i)
  future : ∀ g, m.generation < g → m.moves g = []

/-- What the loop relies on before there is a new map. -/
def UnmappedLoop (l : LayerLoop R) : Prop :=
  match l.stmt with
  | .whileTest | .flagTest | .elseTest | .acquire | .layerTest | .mapTest | .copyMap =>
    m.windowReadyEvent = true
  | .assertStats => m.windowReadyEvent = true ∧
      l.physicalToLogicalMapCpu = some (m.startMaps m.generation)
  | .assertWindow g => m.windowReadyEvent = true ∧
      l.physicalToLogicalMapCpu = some (m.startMaps m.generation) ∧ g = m.generation
  | .clearWindow g | .rebalance g =>
      l.physicalToLogicalMapCpu = some (m.startMaps m.generation) ∧ g = m.generation
  | _ => False

/-- The loop has computed the new map of the rearrangement in progress. -/
def Computed (l : LayerLoop R) : Prop :=
  l.rebalancingAlgorithmExecuted = true ∧
    l.physicalToLogicalMapCpu = some (m.startMaps m.generation)

/-- What the loop relies on while a layer is transferred. -/
def MappedLoop (k : Nat) (l : LayerLoop R) : Prop :=
  match l.stmt with
  | .whileTest | .flagTest | .elseTest | .acquire | .layerTest | .mapTest | .assertMaps
  | .readLayer => True
  | .transferLayer layer old new => layer = k ∧ old = m.startMaps m.generation k ∧
      new = m.newMapOf config i m.generation k
  | .setReady => m.expertBuffer = some (k, m.newMapOf config i m.generation k)
  | _ => False

/-- The stage of a model, with the places of the threads. -/
inductive Stage (main : MainView) (looping : Option (LayerLoop R)) : Prop
  | idle (hmain : main ∈ [.elsewhere, .moving .resetPending, .moving .release,
        .starting .setStats])
      (hloop : Lookout looping) (hflags : m.Flags false false 0 none)
      (hmoved : m.generation = 0 ∨ m.Moved config i (config.numMoeLayers i))
  | announced (hmain : main ∈ [.starting .setWindowReady, .starting .setRebalanced])
      (hloop : Lookout looping) (hflags : m.Flags false false 0 none) (hgen : 0 < m.generation)
      (hstats : m.eplbStats = some m.generation) (hmoved : m.Moved config i 0)
      (hwindow : main = .starting .setRebalanced → m.windowReadyEvent = true)
  | unmapped (hmain : main ∈ [.elsewhere, .starting .setLayer, .starting .setPending])
      (hloop : ∀ l, looping = some l → m.UnmappedLoop l)
      (hwindow : looping = none → m.windowReadyEvent = true)
      (hflags : m.Flags true false 0 none) (hgen : 0 < m.generation)
      (hstats : m.eplbStats = some m.generation) (hmoved : m.Moved config i 0)
  | mapped (k : Nat) (hk : k < config.numMoeLayers i)
      (hmain : main ∈ [.elsewhere, .moving .lastLayerTest, .moving .release] ∨
        k = 0 ∧ main ∈ [.starting .setLayer, .starting .setPending])
      (l : LayerLoop R) (hl : looping = some l) (hcomputed : m.Computed l)
      (hloop : m.MappedLoop config i k l)
      (hflags : m.Flags true false k (some (m.newMapOf config i m.generation)))
      (hgen : 0 < m.generation) (hmoved : m.Moved config i k)
  | ready (k : Nat) (hk : k < config.numMoeLayers i)
      (hmain : main ∈ [.elsewhere, .moving .acquire] ∨
        k = 0 ∧ main ∈ [.starting .setLayer, .starting .setPending])
      (l : LayerLoop R) (hl : looping = some l) (hcomputed : m.Computed l)
      (hloop : l.stmt.lookout = true ∨ l.stmt = .release)
      (hbuffer : m.expertBuffer = some (k, m.newMapOf config i m.generation k))
      (hflags : m.Flags true true k (some (m.newMapOf config i m.generation)))
      (hgen : 0 < m.generation) (hmoved : m.Moved config i k)
  | consuming (k : Nat) (hk : k < config.numMoeLayers i) (hmain : main = .moving .moveFromBuffer)
      (l : LayerLoop R) (hl : looping = some l) (hcomputed : m.Computed l)
      (hloop : l.stmt.lookout = true)
      (hbuffer : m.expertBuffer = some (k, m.newMapOf config i m.generation k))
      (hflags : m.Flags true true k (some (m.newMapOf config i m.generation)))
      (hgen : 0 < m.generation) (hmoved : m.Moved config i k)
  | moved (k : Nat) (hk : k < config.numMoeLayers i)
      (hmain : main ∈ [.moving .updateLayerMapping, .moving .advanceLayer])
      (l : LayerLoop R) (hl : looping = some l) (hcomputed : m.Computed l)
      (hloop : l.stmt.lookout = true)
      (hflags : m.Flags true true k (some (m.newMapOf config i m.generation)))
      (hgen : 0 < m.generation) (hmoved : m.Moved config i (k + 1))
  | advanced (k : Nat) (hk : k ≤ config.numMoeLayers i) (hmain : main = .moving .resetReady)
      (hloop : Lookout looping)
      (hcomputed : k < config.numMoeLayers i → ∃ l, looping = some l ∧ m.Computed l)
      (hflags : m.Flags true true k (some (m.newMapOf config i m.generation)))
      (hgen : 0 < m.generation) (hmoved : m.Moved config i k)
  | emptied (hmain : main ∈ [.moving .lastLayerTest, .moving .postEplb])
      (hloop : Lookout looping)
      (hflags : m.Flags true false (config.numMoeLayers i)
        (some (m.newMapOf config i m.generation)))
      (hgen : 0 < m.generation) (hmoved : m.Moved config i (config.numMoeLayers i))
  | unmapping (hmain : main = .moving .resetRebalanced) (hloop : Lookout looping)
      (hflags : m.Flags true false (config.numMoeLayers i) none)
      (hgen : 0 < m.generation) (hmoved : m.Moved config i (config.numMoeLayers i))
  | unmarked (hmain : main = .moving .resetLayer) (hloop : Lookout looping)
      (hflags : m.Flags false false (config.numMoeLayers i) none)
      (hgen : 0 < m.generation) (hmoved : m.Moved config i (config.numMoeLayers i))

end EplbModelState

open EplbModelState

variable {config : EplbConfig R} {i : Nat} {m : EplbModelState R} {main : MainView}
  {looping : Option (LayerLoop R)}

/-! ## The main thread -/

/-- Moving the layer in progress, with its row in the buffer, moves one layer more. -/
theorem firstMoves_succ (g k : Nat) : m.firstMoves config i g (k + 1) = m.firstMoves config i g k ++
    [⟨k, some (m.newMapOf config i g k), some (k, m.newMapOf config i g k)⟩] := by
  simp [firstMoves, List.range_succ]

/-- A loop at a flag test may be at a layer's transfer. -/
theorem mappedLoop_of_lookout {k : Nat} {l : LayerLoop R} (h : l.stmt.lookout = true) :
    m.MappedLoop config i k l := by
  unfold MappedLoop
  cases hstmt : l.stmt <;> simp_all [LoopStmt.lookout]

/-- A statement of `move_to_workspace` leads to the next stage. -/
theorem EplbModelState.Stage.move {stmt : MoveStmt}
    (h : m.Stage config i (.moving stmt) looping) (hlocks : Locks (.moving stmt) looping m)
    (hacquire : stmt = .acquire → m.bufferLock = none) :
    (m.moveStmt stmt).Stage config i
      (match stmt.next (config.numMoeLayers i) m with
        | some stmt => .moving stmt
        | none => .elsewhere) looping := by
  cases h with
  | idle hmain hloop hflags hmoved =>
    have hstmt : stmt = .resetPending ∨ stmt = .release := by simpa using hmain
    rcases hstmt with rfl | rfl
    · exact .idle (by simp [MoveStmt.next]) hloop hflags hmoved
    · exact .idle (by simp [MoveStmt.next]) hloop hflags hmoved
  | announced hmain => simp at hmain
  | unmapped hmain => simp at hmain
  | mapped k hk hmain l hl hcomputed hloop hflags hgen hmoved =>
    have hstmt : stmt = .lastLayerTest ∨ stmt = .release := by simpa using hmain
    rcases hstmt with rfl | rfl
    · have hlayer : ¬ m.layerToTransfer ≥ config.numMoeLayers i := by
        rw [hflags.2.2.1]
        omega
      simp only [MoveStmt.next, if_neg hlayer]
      exact .mapped k hk (by simp) l hl hcomputed hloop hflags hgen hmoved
    · exact .mapped k hk (by simp [MoveStmt.next]) l hl hcomputed hloop hflags hgen hmoved
  | ready k hk hmain l hl hcomputed hloop hbuffer hflags hgen hmoved =>
    obtain rfl : stmt = .acquire := by simpa using hmain
    -- The lock is free, so that the loop is not at its release.
    have hlookout : l.stmt.lookout = true := hloop.resolve_right fun hrelease => by
      have hheld := hlocks.worker.mp ⟨l, hl, by rw [hrelease]; rfl⟩
      rw [hacquire rfl] at hheld
      cases hheld
    exact .consuming k hk rfl l hl hcomputed hlookout hbuffer hflags hgen hmoved
  | consuming k hk hmain l hl hcomputed hloop hbuffer hflags hgen hmoved =>
    obtain rfl : stmt = .moveFromBuffer := by simpa using hmain
    refine .moved k hk (by simp [MoveStmt.next]) l hl hcomputed hloop hflags hgen ⟨?_, ?_⟩
    · obtain ⟨-, -, hlayer, hmap⟩ := hflags
      calc (m.moveStmt .moveFromBuffer).moves m.generation
        _ = m.moves m.generation ++ [⟨k, some (m.newMapOf config i m.generation k),
              some (k, m.newMapOf config i m.generation k)⟩] := by
          simp [moveStmt, hlayer, hmap, hbuffer]
        _ = m.firstMoves config i m.generation (k + 1) := by
          rw [hmoved.1, firstMoves_succ]
    · exact fun layer hle => hmoved.2 layer (by omega)
  | moved k hk hmain l hl hcomputed hloop hflags hgen hmoved =>
    have hstmt : stmt = .updateLayerMapping ∨ stmt = .advanceLayer := by simpa using hmain
    rcases hstmt with rfl | rfl
    · obtain ⟨hmarked, hready, hlayer, hmap⟩ := hflags
      simp only [moveStmt, hmap]
      refine .moved k hk (by simp [MoveStmt.next]) l hl hcomputed hloop
        ⟨hmarked, hready, hlayer, rfl⟩ hgen ⟨hmoved.1, fun layer hle => ?_⟩
      have hne : layer ≠ m.layerToTransfer := by omega
      exact (Function.update_of_ne hne ..).trans (hmoved.2 layer hle)
    · exact .advanced (k + 1) hk rfl (fun l' hl' => by rw [hl] at hl'; cases hl'; exact hloop)
        (fun _ => ⟨l, hl, hcomputed⟩)
        ⟨hflags.1, hflags.2.1, congrArg (· + 1) hflags.2.2.1, hflags.2.2.2⟩ hgen hmoved
  | advanced k hk hmain hloop hcomputed hflags hgen hmoved =>
    obtain rfl : stmt = .resetReady := by simpa using hmain
    have hflags' : (m.moveStmt .resetReady).Flags true false k
        (some (m.newMapOf config i m.generation)) := ⟨hflags.1, rfl, hflags.2.2⟩
    rcases Nat.lt_or_eq_of_le hk with hlt | rfl
    · obtain ⟨l, hl, hcomputed⟩ := hcomputed hlt
      exact .mapped k hlt (by simp [MoveStmt.next]) l hl hcomputed
        (mappedLoop_of_lookout (hloop l hl)) hflags' hgen hmoved
    · exact .emptied (by simp [MoveStmt.next]) hloop hflags' hgen hmoved
  | emptied hmain hloop hflags hgen hmoved =>
    have hstmt : stmt = .lastLayerTest ∨ stmt = .postEplb := by simpa using hmain
    rcases hstmt with rfl | rfl
    · have hlayer : m.layerToTransfer ≥ config.numMoeLayers i := hflags.2.2.1.ge
      simp only [MoveStmt.next, if_pos hlayer]
      exact .emptied (by simp) hloop hflags hgen hmoved
    · exact .unmapping rfl hloop ⟨hflags.1, hflags.2.1, hflags.2.2.1, rfl⟩ hgen hmoved
  | unmapping hmain hloop hflags hgen hmoved =>
    obtain rfl : stmt = .resetRebalanced := by simpa using hmain
    exact .unmarked rfl hloop ⟨rfl, hflags.2⟩ hgen hmoved
  | unmarked hmain hloop hflags hgen hmoved =>
    obtain rfl : stmt = .resetLayer := by simpa using hmain
    exact .idle (by simp [MoveStmt.next]) hloop ⟨hflags.1, hflags.2.1, rfl, hflags.2.2.2⟩
      (Or.inr hmoved)

/-- The assertions of `move_to_workspace` hold. -/
theorem EplbModelState.Stage.newMap_isSome {stmt : MoveStmt}
    (h : m.Stage config i (.moving stmt) looping)
    (hstmt : stmt = .moveFromBuffer ∨ stmt = .postEplb) :
    m.newPhysicalToLogicalMap.isNone = false := by
  cases h <;> rcases hstmt with rfl | rfl <;> simp_all [Flags]

/-- A statement of `rearrange` leads to the next stage. -/
theorem EplbModelState.Stage.rearrange {stmt : RearrangeStmt}
    (h : m.Stage config i (.starting stmt) looping) (hhistory : m.History config i) :
    (m.rearrangeStmt stmt).Stage config i
      (match stmt.next with
        | some stmt => .starting stmt
        | none => .elsewhere) looping := by
  cases h with
  | idle hmain hloop hflags hmoved =>
    obtain rfl : stmt = .setStats := by simpa using hmain
    refine .announced (by simp [RearrangeStmt.next]) hloop hflags (Nat.succ_pos _) rfl ⟨?_, ?_⟩
      (by simp [RearrangeStmt.next])
    · exact hhistory.future _ (Nat.lt_succ_self _)
    · exact fun layer _ => by simp [rearrangeStmt]
  | announced hmain hloop hflags hgen hstats hmoved hwindow =>
    have hstmt : stmt = .setWindowReady ∨ stmt = .setRebalanced := by simpa using hmain
    rcases hstmt with rfl | rfl
    · exact .announced (by simp [RearrangeStmt.next]) hloop hflags hgen hstats hmoved fun _ => rfl
    · refine .unmapped (by simp [RearrangeStmt.next]) (fun l hl => ?_) (fun _ => hwindow rfl)
        ⟨rfl, hflags.2⟩ hgen hstats hmoved
      have hlookout := hloop l hl
      unfold UnmappedLoop
      cases hstmt : l.stmt <;> simp_all [LoopStmt.lookout, rearrangeStmt]
  | unmapped hmain hloop hwindow hflags hgen hstats hmoved =>
    have hstmt : stmt = .setLayer ∨ stmt = .setPending := by simpa using hmain
    rcases hstmt with rfl | rfl
    · exact .unmapped (by simp [RearrangeStmt.next]) hloop hwindow
        ⟨hflags.1, hflags.2.1, rfl, hflags.2.2.2⟩ hgen hstats hmoved
    · exact .unmapped (by simp [RearrangeStmt.next]) hloop hwindow hflags hgen hstats hmoved
  | mapped k hk hmain l hl hcomputed hloop hflags hgen hmoved =>
    obtain ⟨rfl, hstmt⟩ : k = 0 ∧ (stmt = .setLayer ∨ stmt = .setPending) := by simpa using hmain
    rcases hstmt with rfl | rfl
    · exact .mapped 0 hk (by simp [RearrangeStmt.next]) l hl hcomputed hloop
        ⟨hflags.1, hflags.2.1, rfl, hflags.2.2.2⟩ hgen hmoved
    · exact .mapped 0 hk (by simp [RearrangeStmt.next]) l hl hcomputed hloop hflags hgen hmoved
  | ready k hk hmain l hl hcomputed hloop hbuffer hflags hgen hmoved =>
    obtain ⟨rfl, hstmt⟩ : k = 0 ∧ (stmt = .setLayer ∨ stmt = .setPending) := by simpa using hmain
    rcases hstmt with rfl | rfl
    · exact .ready 0 hk (by simp [RearrangeStmt.next]) l hl hcomputed hloop hbuffer
        ⟨hflags.1, hflags.2.1, rfl, hflags.2.2.2⟩ hgen hmoved
    · exact .ready 0 hk (by simp [RearrangeStmt.next]) l hl hcomputed hloop hbuffer hflags hgen
        hmoved
  | consuming k hk hmain => simp at hmain
  | moved k hk hmain => simp at hmain
  | advanced k hk hmain => simp at hmain
  | emptied hmain => simp at hmain
  | unmapping hmain => simp at hmain
  | unmarked hmain => simp at hmain

/-! ## The background thread -/

section Loop

variable {l : LayerLoop R}

private theorem unmappedLoop_of_lookout {stmt : LoopStmt R} (h : m.UnmappedLoop l)
    (hlookout : l.stmt.lookout = true) (hstmt : stmt.lookout = true ∨ stmt = .acquire) :
    m.UnmappedLoop { l with stmt } := by
  have hwindow : m.windowReadyEvent = true := by
    unfold UnmappedLoop at h
    cases hl : l.stmt <;> simp_all [LoopStmt.lookout]
  unfold UnmappedLoop
  cases stmt <;> simp_all [LoopStmt.lookout]

private theorem lookout_some (h : l.stmt.lookout = true) : Lookout (some l) := by
  intro l' hl'
  obtain rfl := Option.some.inj hl'
  exact h

/-- Between two looks at the flags nothing changes. -/
theorem EplbModelState.Stage.look (h : m.Stage config i main (some l))
    (hlookout : l.stmt.lookout = true) {stmt : LoopStmt R} (hstmt : stmt.lookout = true) :
    m.Stage config i main (some { l with stmt }) := by
  have hnew : Lookout (some { l with stmt }) := lookout_some hstmt
  cases h with
  | idle hmain hloop hflags hmoved => exact .idle hmain hnew hflags hmoved
  | announced hmain hloop hflags hgen hstats hmoved hwindow =>
    exact .announced hmain hnew hflags hgen hstats hmoved hwindow
  | unmapped hmain hloop hwindow hflags hgen hstats hmoved =>
    refine .unmapped hmain (fun l' hl' => ?_) (fun h => by cases h) hflags hgen hstats hmoved
    obtain rfl := Option.some.inj hl'
    exact unmappedLoop_of_lookout (hloop l rfl) hlookout (Or.inl hstmt)
  | mapped k hk hmain l' hl hcomputed hloop hflags hgen hmoved =>
    obtain rfl := Option.some.inj hl
    exact .mapped k hk hmain _ rfl hcomputed (mappedLoop_of_lookout hstmt) hflags hgen hmoved
  | ready k hk hmain l' hl hcomputed hloop hbuffer hflags hgen hmoved =>
    obtain rfl := Option.some.inj hl
    exact .ready k hk hmain _ rfl hcomputed (Or.inl hstmt) hbuffer hflags hgen hmoved
  | consuming k hk hmain l' hl hcomputed hloop hbuffer hflags hgen hmoved =>
    obtain rfl := Option.some.inj hl
    exact .consuming k hk hmain _ rfl hcomputed hstmt hbuffer hflags hgen hmoved
  | moved k hk hmain l' hl hcomputed hloop hflags hgen hmoved =>
    obtain rfl := Option.some.inj hl
    exact .moved k hk hmain _ rfl hcomputed hstmt hflags hgen hmoved
  | advanced k hk hmain hloop hcomputed hflags hgen hmoved =>
    refine .advanced k hk hmain hnew (fun hlt => ?_) hflags hgen hmoved
    obtain ⟨l', hl', hcomputed⟩ := hcomputed hlt
    obtain rfl := Option.some.inj hl'
    exact ⟨_, rfl, hcomputed⟩
  | emptied hmain hloop hflags hgen hmoved => exact .emptied hmain hnew hflags hgen hmoved
  | unmapping hmain hloop hflags hgen hmoved => exact .unmapping hmain hnew hflags hgen hmoved
  | unmarked hmain hloop hflags hgen hmoved => exact .unmarked hmain hnew hflags hgen hmoved

/-- The loop is left only when the model is not marked or all its layers are moved. -/
theorem EplbModelState.Stage.leave (h : m.Stage config i main (some l))
    (hlookout : l.stmt.lookout = true)
    (hdone : ¬ (m.rebalanced = true ∧ m.layerToTransfer < config.numMoeLayers i)) :
    m.Stage config i main none := by
  have hnone : Lookout (none : Option (LayerLoop R)) := fun _ h => by cases h
  cases h with
  | idle hmain hloop hflags hmoved => exact .idle hmain hnone hflags hmoved
  | announced hmain hloop hflags hgen hstats hmoved hwindow =>
    exact .announced hmain hnone hflags hgen hstats hmoved hwindow
  | unmapped hmain hloop hwindow hflags hgen hstats hmoved =>
    refine .unmapped hmain (fun _ h => by cases h) (fun _ => ?_) hflags hgen hstats hmoved
    have hwindow := unmappedLoop_of_lookout (hloop l rfl) hlookout (Or.inr rfl)
    exact hwindow
  | mapped k hk hmain l' hl hcomputed hloop hflags =>
    exact absurd ⟨hflags.1, hflags.2.2.1.trans_lt hk⟩ hdone
  | ready k hk hmain l' hl hcomputed hloop hbuffer hflags =>
    exact absurd ⟨hflags.1, hflags.2.2.1.trans_lt hk⟩ hdone
  | consuming k hk hmain l' hl hcomputed hloop hbuffer hflags =>
    exact absurd ⟨hflags.1, hflags.2.2.1.trans_lt hk⟩ hdone
  | moved k hk hmain l' hl hcomputed hloop hflags =>
    exact absurd ⟨hflags.1, hflags.2.2.1.trans_lt hk⟩ hdone
  | advanced k hk hmain hloop hcomputed hflags hgen hmoved =>
    exact .advanced k hk hmain hnone
      (fun hlt => absurd ⟨hflags.1, hflags.2.2.1.trans_lt hlt⟩ hdone) hflags hgen hmoved
  | emptied hmain hloop hflags hgen hmoved => exact .emptied hmain hnone hflags hgen hmoved
  | unmapping hmain hloop hflags hgen hmoved => exact .unmapping hmain hnone hflags hgen hmoved
  | unmarked hmain hloop hflags hgen hmoved => exact .unmarked hmain hnone hflags hgen hmoved

/-- A flag test that passes in time finds a model whose layer in progress is not ready. -/
theorem EplbModelState.Stage.pass (h : m.Stage config i main (some l))
    (hlookout : l.stmt.lookout = true) (hready : m.epBufferReady = false)
    (hmarked : m.rebalanced = true) (hlayer : m.layerToTransfer < config.numMoeLayers i) :
    m.Stage config i main (some { l with stmt := .acquire }) := by
  cases h with
  | unmapped hmain hloop hwindow hflags hgen hstats hmoved =>
    refine .unmapped hmain (fun l' hl' => ?_) (fun h => by cases h) hflags hgen hstats hmoved
    obtain rfl := Option.some.inj hl'
    exact unmappedLoop_of_lookout (hloop l rfl) hlookout (Or.inr rfl)
  | mapped k hk hmain l' hl hcomputed hloop hflags hgen hmoved =>
    obtain rfl := Option.some.inj hl
    exact .mapped k hk hmain _ rfl hcomputed trivial hflags hgen hmoved
  | idle hmain hloop hflags => simp [hflags.1] at hmarked
  | announced hmain hloop hflags => simp [hflags.1] at hmarked
  | ready k hk hmain l' hl hcomputed hloop hbuffer hflags => simp [hflags.2.1] at hready
  | consuming k hk hmain l' hl hcomputed hloop hbuffer hflags => simp [hflags.2.1] at hready
  | moved k hk hmain l' hl hcomputed hloop hflags => simp [hflags.2.1] at hready
  | advanced k hk hmain hloop hcomputed hflags => simp [hflags.2.1] at hready
  | emptied hmain hloop hflags => simp [hflags.2.2.1] at hlayer
  | unmapping hmain hloop hflags => simp [hflags.2.2.1] at hlayer
  | unmarked hmain hloop hflags => simp [hflags.1] at hmarked

/-- The loop over the layers begins. -/
theorem EplbModelState.Stage.enter (h : m.Stage config i main none) :
    m.Stage config i main (some { model := i }) := by
  have hnew : Lookout (some ({ model := i } : LayerLoop R)) := lookout_some rfl
  cases h with
  | idle hmain hloop hflags hmoved => exact .idle hmain hnew hflags hmoved
  | announced hmain hloop hflags hgen hstats hmoved hwindow =>
    exact .announced hmain hnew hflags hgen hstats hmoved hwindow
  | unmapped hmain hloop hwindow hflags hgen hstats hmoved =>
    refine .unmapped hmain (fun l hl => ?_) (fun h => by cases h) hflags hgen hstats hmoved
    obtain rfl := Option.some.inj hl
    exact hwindow rfl
  | mapped k hk hmain l hl => cases hl
  | ready k hk hmain l hl => cases hl
  | consuming k hk hmain l hl => cases hl
  | moved k hk hmain l hl => cases hl
  | advanced k hk hmain hloop hcomputed hflags hgen hmoved =>
    refine .advanced k hk hmain hnew (fun hlt => ?_) hflags hgen hmoved
    obtain ⟨l, hl, -⟩ := hcomputed hlt
    cases hl
  | emptied hmain hloop hflags hgen hmoved => exact .emptied hmain hnew hflags hgen hmoved
  | unmapping hmain hloop hflags hgen hmoved => exact .unmapping hmain hnew hflags hgen hmoved
  | unmarked hmain hloop hflags hgen hmoved => exact .unmarked hmain hnew hflags hgen hmoved

/-- What a statement of the loop leads to: the loop goes on, or it is left for the next model when
nothing is left to do. It does not fail. -/
inductive LoopResult (config : EplbConfig R) (i : Nat) (main : MainView) (m m' : EplbModelState R)
    (worker : WorkerPc R) : Prop
  | next (l' : LayerLoop R) (hworker : worker = .loop l') (hmodel : l'.model = i)
      (hstage : m'.Stage config i main (some l')) (hlocks : Locks main (some l') m')
  | left (hworker : worker = .nextModel (i + 1))
      (hdone : ¬ (m.rebalanced = true ∧ m.layerToTransfer < config.numMoeLayers i))
      (hstage : m'.Stage config i main none) (hlocks : Locks main none m')

/-- The locks stay while the loop goes on with the lock held, or not held. -/
theorem Locks.goto (h : Locks main (some l) m) {l' : LayerLoop R} {m' : EplbModelState R}
    (hstmt : l'.stmt.holdsLock = l.stmt.holdsLock) (hm : m'.bufferLock = m.bufferLock) :
    Locks main (some l') m' where
  main := by rw [hm, h.main]
  worker := by rw [hm, ← h.worker]; simp [hstmt]

/-- A look at the flags. -/
theorem EplbModelState.Stage.loop_lookout (h : m.Stage config i main (some l)) (hl : l.model = i)
    (hlocks : Locks main (some l) m) (hlookout : l.stmt.lookout = true)
    (htime : l.stmt = .flagTest → m.epBufferReady = false → m.rebalanced = true →
      m.layerToTransfer < config.numMoeLayers i) :
    ∃ worker, l.step config m = some (m, worker) ∧ LoopResult config i main m m worker := by
  subst hl
  have hunlocked : Locks main none m := by
    refine ⟨hlocks.main, ?_⟩
    rw [← hlocks.worker]
    cases hstmt : l.stmt <;> simp_all [LoopStmt.lookout, LoopStmt.holdsLock]
  have hgoto {stmt : LoopStmt R} (hstmt : stmt.lookout = true) :
      LoopResult config l.model main m m (l.goto stmt) :=
    .next _ rfl rfl (h.look hlookout hstmt) (hlocks.goto (by
      cases h₁ : l.stmt <;> cases h₂ : stmt <;> simp_all [LoopStmt.lookout, LoopStmt.holdsLock])
      rfl)
  unfold LayerLoop.step
  cases hstmt : l.stmt with
  | whileTest =>
    refine ⟨_, rfl, ?_⟩
    split
    · exact hgoto rfl
    · next hdone => exact .left rfl hdone (h.leave hlookout hdone) hunlocked
  | flagTest =>
    refine ⟨_, rfl, ?_⟩
    split
    · next hpass =>
      have hready : m.epBufferReady = false := by simpa using hpass.1
      exact .next _ rfl rfl (h.pass hlookout hready hpass.2 (htime hstmt hready hpass.2))
        (hlocks.goto (by rw [hstmt]; rfl) rfl)
    · exact hgoto rfl
  | elseTest =>
    refine ⟨_, rfl, ?_⟩
    split
    · next hunmarked =>
      have hdone : ¬ (m.rebalanced = true ∧
          m.layerToTransfer < config.numMoeLayers l.model) := by
        simp_all
      exact .left rfl hdone (h.leave hlookout hdone) hunlocked
    · exact hgoto rfl
  | _ => simp [hstmt, LoopStmt.lookout] at hlookout

/-- Taking the free lock. -/
theorem Locks.take (h : Locks main (some l) m) (hfree : m.bufferLock = none) {l' : LayerLoop R}
    (hstmt : l'.stmt.holdsLock = true) :
    Locks main (some l') { m with bufferLock := some .worker } where
  main := by
    have hmain := h.main
    rw [hfree] at hmain
    simpa using hmain
  worker := by simp [hstmt]

/-- Giving the lock back. -/
theorem Locks.release (h : Locks main (some l) m) (hheld : l.stmt.holdsLock = true)
    {looping : Option (LayerLoop R)}
    (hlooping : ∀ l', looping = some l' → l'.stmt.holdsLock = false) :
    Locks main looping { m with bufferLock := none } where
  main := by
    have hmain := h.main
    rw [h.worker.mp ⟨l, rfl, hheld⟩] at hmain
    simpa using hmain
  worker := by
    simp only [reduceCtorEq, iff_false, not_exists, not_and, Bool.not_eq_true]
    exact hlooping

/-- The main thread is not at a statement under the lock while the loop is. -/
theorem Locks.apart (h : Locks main (some l) m) (hheld : l.stmt.holdsLock = true) :
    main.holdsLock = false := by
  have hmain := h.main
  rw [h.worker.mp ⟨l, rfl, hheld⟩] at hmain
  simpa using hmain

/-- A statement that works on the new map. -/
theorem EplbModelState.Stage.loop_unmapped (hn : 0 < config.numMoeLayers i) (hl : l.model = i)
    (hlocks : Locks main (some l) m) (hlookout : l.stmt.lookout = false)
    (hmain : main ∈ [.elsewhere, .starting .setLayer, .starting .setPending])
    (hloop : m.UnmappedLoop l) (hflags : m.Flags true false 0 none) (hgen : 0 < m.generation)
    (hstats : m.eplbStats = some m.generation) (hmoved : m.Moved config i 0)
    {m' : EplbModelState R} {worker : WorkerPc R} (hstep : l.step config m = some (m', worker)) :
    LoopResult config i main m m' worker := by
  subst hl
  obtain ⟨hmarked, hready, hlayer, hmap⟩ := hflags
  -- A loop that goes on without a new map.
  have hnext {m' : EplbModelState R} {l' : LayerLoop R} (hloop' : m'.UnmappedLoop l')
      (hmodel : l'.model = l.model) (hflags' : m'.Flags true false 0 none)
      (hsame : m'.generation = m.generation ∧ m'.eplbStats = m.eplbStats ∧
        m'.startMaps = m.startMaps ∧ m'.moves = m.moves ∧
          m'.physicalToLogicalMap = m.physicalToLogicalMap)
      (hlocks' : Locks main (some l') m') : LoopResult config l.model main m m' (.loop l') := by
    obtain ⟨hgeneration, hstats', hstart, hmoves, hphysical⟩ := hsame
    refine .next l' rfl hmodel (.unmapped hmain (fun l'' hl'' => ?_) (fun h => by cases h) hflags'
      (hgeneration ▸ hgen) (by rw [hstats', hstats, hgeneration]) ?_) hlocks'
    · obtain rfl := Option.some.inj hl''
      exact hloop'
    · unfold Moved firstMoves newMapOf at hmoved ⊢
      rw [hgeneration, hstart, hmoves, hphysical]
      exact hmoved
  unfold LayerLoop.step at hstep
  unfold UnmappedLoop at hloop
  cases hstmt : l.stmt with
  | acquire =>
    simp only [hstmt] at hstep hloop
    split at hstep
    · next hfree =>
      obtain ⟨rfl, rfl⟩ := Prod.mk.inj (Option.some.inj hstep)
      exact hnext hloop rfl ⟨hmarked, hready, hlayer, hmap⟩ ⟨rfl, rfl, rfl, rfl, rfl⟩
        (hlocks.take hfree rfl)
    · cases hstep
  | layerTest =>
    simp only [hstmt, hlayer, Option.some.injEq, Prod.mk.injEq] at hstep hloop
    rw [if_neg (by omega)] at hstep
    obtain ⟨rfl, rfl⟩ := hstep
    exact hnext hloop rfl ⟨hmarked, hready, hlayer, hmap⟩ ⟨rfl, rfl, rfl, rfl, rfl⟩
      (hlocks.goto (by rw [hstmt]; rfl) rfl)
  | mapTest =>
    simp only [hstmt, hmap, Option.isNone_none, or_true, if_true, Option.some.injEq,
      Prod.mk.injEq] at hstep hloop
    obtain ⟨rfl, rfl⟩ := hstep
    exact hnext hloop rfl ⟨hmarked, hready, hlayer, hmap⟩ ⟨rfl, rfl, rfl, rfl, rfl⟩
      (hlocks.goto (by rw [hstmt]; rfl) rfl)
  | copyMap =>
    simp only [hstmt, Option.some.injEq, Prod.mk.injEq] at hstep hloop
    obtain ⟨rfl, rfl⟩ := hstep
    have hphysical : m.physicalToLogicalMap = m.startMaps m.generation :=
      funext fun layer => hmoved.2 layer (Nat.zero_le _)
    exact hnext ⟨hloop, congrArg some hphysical⟩ rfl ⟨hmarked, hready, hlayer, hmap⟩
      ⟨rfl, rfl, rfl, rfl, rfl⟩ (hlocks.goto (by rw [hstmt]; rfl) rfl)
  | assertStats =>
    simp only [hstmt, hstats, Option.some.injEq, Prod.mk.injEq] at hstep hloop
    obtain ⟨rfl, rfl⟩ := hstep
    exact hnext ⟨hloop.1, hloop.2, rfl⟩ rfl ⟨hmarked, hready, hlayer, hmap⟩
      ⟨rfl, rfl, rfl, rfl, rfl⟩ (hlocks.goto (by rw [hstmt]; rfl) rfl)
  | assertWindow g =>
    simp only [hstmt] at hstep hloop
    rw [if_pos hloop.1] at hstep
    obtain ⟨rfl, rfl⟩ := Prod.mk.inj (Option.some.inj hstep)
    exact hnext hloop.2 rfl ⟨hmarked, hready, hlayer, hmap⟩ ⟨rfl, rfl, rfl, rfl, rfl⟩
      (hlocks.goto (by rw [hstmt]; rfl) rfl)
  | clearWindow g =>
    simp only [hstmt, Option.some.injEq, Prod.mk.injEq] at hstep hloop
    obtain ⟨rfl, rfl⟩ := hstep
    exact hnext hloop rfl ⟨hmarked, hready, hlayer, hmap⟩ ⟨rfl, rfl, rfl, rfl, rfl⟩
      (hlocks.goto (by rw [hstmt]; rfl) rfl)
  | rebalance g =>
    simp only [hstmt] at hstep hloop
    obtain ⟨hcpu, rfl⟩ := hloop
    rw [hcpu] at hstep
    obtain ⟨rfl, rfl⟩ := Prod.mk.inj (Option.some.inj hstep)
    have hmain' : main ∈ [.elsewhere, .moving .lastLayerTest, .moving .release] ∨
        0 = 0 ∧ main ∈ [.starting .setLayer, .starting .setPending] := by
      simp only [List.mem_cons, List.not_mem_nil, or_false, true_and] at hmain ⊢
      tauto
    exact .next _ rfl rfl (.mapped 0 hn hmain' _ rfl ⟨rfl, rfl⟩ trivial
      ⟨hmarked, hready, hlayer, rfl⟩ hgen hmoved) (hlocks.goto (by rw [hstmt]; rfl) rfl)
  | _ => simp [hstmt, LoopStmt.lookout] at hlookout hloop

/-- A statement that works on the transfer of a layer. -/
theorem EplbModelState.Stage.loop_mapped (hl : l.model = i)
    (hlocks : Locks main (some l) m) (hlookout : l.stmt.lookout = false) {k : Nat}
    (hk : k < config.numMoeLayers i)
    (hmain : main ∈ [.elsewhere, .moving .lastLayerTest, .moving .release] ∨
      k = 0 ∧ main ∈ [.starting .setLayer, .starting .setPending])
    (hcomputed : m.Computed l) (hloop : m.MappedLoop config i k l)
    (hflags : m.Flags true false k (some (m.newMapOf config i m.generation)))
    (hgen : 0 < m.generation) (hmoved : m.Moved config i k)
    {m' : EplbModelState R} {worker : WorkerPc R} (hstep : l.step config m = some (m', worker)) :
    LoopResult config i main m m' worker := by
  subst hl
  obtain ⟨hmarked, hready, hlayer, hmap⟩ := hflags
  obtain ⟨hexecuted, hcpu⟩ := hcomputed
  unfold LayerLoop.step at hstep
  unfold MappedLoop at hloop
  cases hstmt : l.stmt with
  | acquire =>
    simp only [hstmt] at hstep
    split at hstep
    · next hfree =>
      obtain ⟨rfl, rfl⟩ := Prod.mk.inj (Option.some.inj hstep)
      exact .next _ rfl rfl (.mapped k hk hmain _ rfl ⟨hexecuted, hcpu⟩ trivial
        ⟨hmarked, hready, hlayer, hmap⟩ hgen hmoved) (hlocks.take hfree rfl)
    · cases hstep
  | layerTest =>
    simp only [hstmt, hlayer, Option.some.injEq, Prod.mk.injEq] at hstep
    rw [if_neg (by omega)] at hstep
    obtain ⟨rfl, rfl⟩ := hstep
    exact .next _ rfl rfl (.mapped k hk hmain _ rfl ⟨hexecuted, hcpu⟩ trivial
      ⟨hmarked, hready, hlayer, hmap⟩ hgen hmoved) (hlocks.goto (by rw [hstmt]; rfl) rfl)
  | mapTest =>
    simp only [hstmt, hexecuted, hmap, Option.isNone_some, Bool.not_true, Bool.false_eq_true,
      or_self, if_false, Option.some.injEq, Prod.mk.injEq] at hstep
    obtain ⟨rfl, rfl⟩ := hstep
    exact .next _ rfl rfl (.mapped k hk hmain _ rfl ⟨hexecuted, hcpu⟩ trivial
      ⟨hmarked, hready, hlayer, hmap⟩ hgen hmoved) (hlocks.goto (by rw [hstmt]; rfl) rfl)
  | assertMaps =>
    simp only [hstmt, hmap, hcpu, Option.isSome_some, and_self, if_true, Option.some.injEq,
      Prod.mk.injEq] at hstep
    obtain ⟨rfl, rfl⟩ := hstep
    exact .next _ rfl rfl (.mapped k hk hmain _ rfl ⟨hexecuted, hcpu⟩ trivial
      ⟨hmarked, hready, hlayer, hmap⟩ hgen hmoved) (hlocks.goto (by rw [hstmt]; rfl) rfl)
  | readLayer =>
    simp only [hstmt, hmap, hcpu, hlayer, Option.some.injEq, Prod.mk.injEq] at hstep
    obtain ⟨rfl, rfl⟩ := hstep
    exact .next _ rfl rfl (.mapped k hk hmain _ rfl ⟨hexecuted, hcpu⟩ ⟨rfl, rfl, rfl⟩
      ⟨hmarked, hready, hlayer, hmap⟩ hgen hmoved) (hlocks.goto (by rw [hstmt]; rfl) rfl)
  | transferLayer layer old new =>
    simp only [hstmt, Option.some.injEq, Prod.mk.injEq] at hstep hloop
    obtain ⟨rfl, -, rfl⟩ := hloop
    obtain ⟨rfl, rfl⟩ := hstep
    exact .next _ rfl rfl (.mapped layer hk hmain _ rfl ⟨hexecuted, hcpu⟩ rfl
      ⟨hmarked, hready, hlayer, hmap⟩ hgen hmoved) (hlocks.goto (by rw [hstmt]; rfl) rfl)
  | setReady =>
    simp only [hstmt, Option.some.injEq, Prod.mk.injEq] at hstep hloop
    obtain ⟨rfl, rfl⟩ := hstep
    -- The loop has the lock, so that the main thread is not in `move_to_workspace`.
    have hapart := hlocks.apart (by rw [hstmt]; rfl)
    have hmain' : main ∈ [.elsewhere, .moving .acquire] ∨
        k = 0 ∧ main ∈ [.starting .setLayer, .starting .setPending] := by
      simp only [List.mem_cons, List.not_mem_nil, or_false] at hmain ⊢
      rcases hmain with (rfl | rfl | rfl) | hstart
      · exact Or.inl (Or.inl rfl)
      · cases hapart
      · cases hapart
      · exact Or.inr hstart
    exact .next _ rfl rfl (.ready k hk hmain' _ rfl ⟨hexecuted, hcpu⟩ (Or.inr rfl) hloop
      ⟨hmarked, rfl, hlayer, hmap⟩ hgen hmoved) (hlocks.goto (by rw [hstmt]; rfl) rfl)
  | _ => simp [hstmt, LoopStmt.lookout] at hlookout hloop

/-- A statement of the loop, with a flag test that is in time. -/
theorem EplbModelState.Stage.loop (hn : 0 < config.numMoeLayers i)
    (h : m.Stage config i main (some l)) (hl : l.model = i) (hlocks : Locks main (some l) m)
    (htime : l.stmt = .flagTest → m.epBufferReady = false → m.rebalanced = true →
      m.layerToTransfer < config.numMoeLayers i)
    {m' : EplbModelState R} {worker : WorkerPc R} (hstep : l.step config m = some (m', worker)) :
    LoopResult config i main m m' worker := by
  cases hlookout : l.stmt.lookout with
  | true =>
    obtain ⟨worker', hstep', hresult⟩ := h.loop_lookout hl hlocks hlookout htime
    rw [hstep'] at hstep
    obtain ⟨rfl, rfl⟩ := Prod.mk.inj (Option.some.inj hstep)
    exact hresult
  | false =>
    have hnot {P : Prop} (hloop : Lookout (some l)) : P := by
      simp [hloop l rfl] at hlookout
    cases h with
    | unmapped hmain hloop hwindow hflags hgen hstats hmoved =>
      exact Stage.loop_unmapped hn hl hlocks hlookout hmain (hloop l rfl) hflags hgen hstats hmoved
        hstep
    | mapped k hk hmain l' hl' hcomputed hloop hflags hgen hmoved =>
      obtain rfl := Option.some.inj hl'
      exact Stage.loop_mapped hl hlocks hlookout hk hmain hcomputed hloop hflags hgen hmoved hstep
    | ready k hk hmain l' hl' hcomputed hloop hbuffer hflags hgen hmoved =>
      obtain rfl := Option.some.inj hl'
      have hstmt : l.stmt = .release := hloop.resolve_left (by simp [hlookout])
      subst hl
      unfold LayerLoop.step at hstep
      simp only [hstmt, Option.some.injEq, Prod.mk.injEq] at hstep
      obtain ⟨rfl, rfl⟩ := hstep
      refine .next _ rfl rfl (.ready k hk hmain _ rfl hcomputed (Or.inl rfl) hbuffer hflags hgen
        hmoved) (hlocks.release (by rw [hstmt]; rfl) fun l' hl' => ?_)
      obtain rfl := Option.some.inj hl'
      rfl
    | idle hmain hloop => exact hnot hloop
    | announced hmain hloop => exact hnot hloop
    | consuming k hk hmain l' hl' hcomputed hloop =>
      obtain rfl := Option.some.inj hl'
      simp [hloop] at hlookout
    | moved k hk hmain l' hl' hcomputed hloop =>
      obtain rfl := Option.some.inj hl'
      simp [hloop] at hlookout
    | advanced k hk hmain hloop => exact hnot hloop
    | emptied hmain hloop => exact hnot hloop
    | unmapping hmain hloop => exact hnot hloop
    | unmarked hmain hloop => exact hnot hloop

/-- The loop does not touch what the main thread keeps. -/
theorem LayerLoop.step_frame {m' : EplbModelState R} {worker : WorkerPc R}
    (hstep : l.step config m = some (m', worker)) : m'.rebalanced = m.rebalanced ∧
      m'.layerToTransfer = m.layerToTransfer ∧ m'.generation = m.generation ∧
        m'.startMaps = m.startMaps ∧ m'.moves = m.moves := by
  unfold LayerLoop.step EplbModelState.fail at hstep
  grind

end Loop

/-! ## Locks and history under the main thread -/

/-- Updating the mapping of a layer touches the physical map only. -/
theorem exists_updateLayerMapping (m : EplbModelState R) :
    ∃ f, m.moveStmt .updateLayerMapping = { m with physicalToLogicalMap := f } := by
  cases hmap : m.newPhysicalToLogicalMap with
  | none => exact ⟨m.physicalToLogicalMap, by simp only [moveStmt, hmap]; rw [← hmap]⟩
  | some newMap => exact ⟨_, by simp only [moveStmt, hmap]; rfl⟩

/-- The lock is taken at the start of `move_to_workspace` and given back at its end. -/
theorem Locks.move (config : EplbConfig R) (i : Nat) {stmt : MoveStmt}
    (h : Locks (.moving stmt) looping m)
    (hacquire : stmt = .acquire → m.bufferLock = none) :
    Locks (match stmt.next (config.numMoeLayers i) m with
      | some stmt => .moving stmt
      | none => .elsewhere) looping (m.moveStmt stmt) := by
  obtain ⟨hmain, hworker⟩ := h
  cases stmt with
  | acquire =>
    rw [hacquire rfl] at hworker
    exact ⟨by simp [MoveStmt.next, MainView.holdsLock, moveStmt], by simpa [moveStmt] using hworker⟩
  | release =>
    have hheld : m.bufferLock = some .main := hmain.mp rfl
    rw [hheld] at hworker
    exact ⟨by simp [MoveStmt.next, MainView.holdsLock, moveStmt], by simpa [moveStmt] using hworker⟩
  | updateLayerMapping =>
    obtain ⟨f, hf⟩ := exists_updateLayerMapping m
    rw [hf]
    exact ⟨hmain, hworker⟩
  | lastLayerTest =>
    refine ⟨?_, hworker⟩
    rw [moveStmt, ← hmain]
    simp only [MoveStmt.next]
    split <;> simp [MainView.holdsLock]
  | moveFromBuffer => exact ⟨hmain, hworker⟩
  | advanceLayer => exact ⟨hmain, hworker⟩
  | resetReady => exact ⟨hmain, hworker⟩
  | postEplb => exact ⟨hmain, hworker⟩
  | resetRebalanced => exact ⟨hmain, hworker⟩
  | resetLayer => exact ⟨hmain, hworker⟩
  | resetPending => exact ⟨hmain, hworker⟩

/-- Other rearrangements are not touched by a move. -/
theorem EplbModelState.History.move (h : m.History config i) (stmt : MoveStmt) :
    (m.moveStmt stmt).History config i := by
  cases stmt with
  | moveFromBuffer =>
    refine ⟨fun g hpos hlt => ?_, fun g hlt => ?_⟩
    · exact (Function.update_of_ne (Nat.ne_of_lt hlt) ..).trans (h.past g hpos hlt)
    · exact (Function.update_of_ne (Nat.ne_of_gt hlt) ..).trans (h.future g hlt)
  | updateLayerMapping =>
    obtain ⟨f, hf⟩ := exists_updateLayerMapping m
    rw [hf]
    exact ⟨h.past, h.future⟩
  | _ => exact ⟨h.past, h.future⟩

/-- A model that is marked behind a move, with a layer left, was so before. -/
theorem EplbModelState.Stage.move_marked {stmt : MoveStmt}
    (h : m.Stage config i (.moving stmt) looping) (hmarked : (m.moveStmt stmt).rebalanced = true)
    (hlayer : (m.moveStmt stmt).layerToTransfer < config.numMoeLayers i) :
    m.rebalanced = true ∧ m.layerToTransfer < config.numMoeLayers i := by
  cases stmt with
  | updateLayerMapping =>
    obtain ⟨f, hf⟩ := exists_updateLayerMapping m
    rw [hf] at hmarked hlayer
    exact ⟨hmarked, hlayer⟩
  | advanceLayer => exact ⟨hmarked, Nat.lt_of_succ_lt hlayer⟩
  | resetRebalanced => cases hmarked
  | resetLayer =>
    have hunmarked : m.rebalanced = false := by
      cases h with
      | unmarked hmain hloop hflags => exact hflags.1
      | idle hmain hloop hflags => exact hflags.1
      | announced hmain => simp at hmain
      | unmapped hmain => simp at hmain
      | mapped k hk hmain => simp at hmain
      | ready k hk hmain => simp at hmain
      | consuming k hk hmain => simp at hmain
      | moved k hk hmain => simp at hmain
      | advanced k hk hmain => simp at hmain
      | emptied hmain => simp at hmain
      | unmapping hmain => simp at hmain
    have hmarked : m.rebalanced = true := hmarked
    rw [hunmarked] at hmarked
    cases hmarked
  | _ => exact ⟨hmarked, hlayer⟩

/-- The start of a rearrangement closes the one before. -/
theorem EplbModelState.History.rearrange {stmt : RearrangeStmt} (h : m.History config i)
    (hstage : m.Stage config i (.starting stmt) looping) :
    (m.rearrangeStmt stmt).History config i := by
  cases stmt with
  | setStats =>
    have hdone : m.generation = 0 ∨ m.Moved config i (config.numMoeLayers i) := by
      cases hstage with
      | idle hmain hloop hflags hmoved => exact hmoved
      | announced hmain => simp at hmain
      | unmapped hmain => simp at hmain
      | mapped k hk hmain => simp at hmain
      | ready k hk hmain => simp at hmain
      | consuming k hk hmain => simp at hmain
      | moved k hk hmain => simp at hmain
      | advanced k hk hmain => simp at hmain
      | emptied hmain => simp at hmain
      | unmapping hmain => simp at hmain
      | unmarked hmain => simp at hmain
    refine ⟨fun g hpos hlt => ?_, fun g hlt => h.future g (Nat.lt_of_succ_lt hlt)⟩
    have hlt : g < m.generation + 1 := hlt
    have hmoves : m.moves g = m.firstMoves config i g (config.numMoeLayers i) := by
      rcases Nat.lt_succ_iff_lt_or_eq.mp hlt with hlt | rfl
      · exact h.past g hpos hlt
      · exact (hdone.resolve_left (Nat.ne_of_gt hpos)).1
    have hstart : (m.rearrangeStmt .setStats).startMaps g = m.startMaps g :=
      Function.update_of_ne (Nat.ne_of_lt hlt) ..
    unfold firstMoves newMapOf at hmoves ⊢
    rw [hstart]
    exact hmoves
  | _ => exact ⟨h.past, h.future⟩

/-! ## Changes of place of the main thread -/

/-- A model that is not marked is between two rearrangements. -/
theorem EplbModelState.Stage.start (h : m.Stage config i .elsewhere looping)
    (hmarked : m.rebalanced = false) : m.Stage config i (.starting .setStats) looping := by
  cases h with
  | idle hmain hloop hflags hmoved => exact .idle (by simp) hloop hflags hmoved
  | announced hmain => simp at hmain
  | unmapped hmain hloop hwindow hflags => simp [hflags.1] at hmarked
  | mapped k hk hmain l hl hcomputed hloop hflags => simp [hflags.1] at hmarked
  | ready k hk hmain l hl hcomputed hloop hbuffer hflags => simp [hflags.1] at hmarked
  | consuming k hk hmain => cases hmain
  | moved k hk hmain => simp at hmain
  | advanced k hk hmain => cases hmain
  | emptied hmain => simp at hmain
  | unmapping hmain => cases hmain
  | unmarked hmain => cases hmain

/-- A model whose buffer is ready has a layer to move. -/
theorem EplbModelState.Stage.consume (h : m.Stage config i .elsewhere looping)
    (hready : m.epBufferReady = true) : m.Stage config i (.moving .acquire) looping := by
  cases h with
  | ready k hk hmain l hl hcomputed hloop hbuffer hflags hgen hmoved =>
    exact .ready k hk (by simp) l hl hcomputed hloop hbuffer hflags hgen hmoved
  | idle hmain hloop hflags => simp [hflags.2.1] at hready
  | announced hmain => simp at hmain
  | unmapped hmain hloop hwindow hflags => simp [hflags.2.1] at hready
  | mapped k hk hmain l hl hcomputed hloop hflags => simp [hflags.2.1] at hready
  | consuming k hk hmain => cases hmain
  | moved k hk hmain => simp at hmain
  | advanced k hk hmain => cases hmain
  | emptied hmain => simp at hmain
  | unmapping hmain => cases hmain
  | unmarked hmain => cases hmain

end Vllm.Distributed
