import Mathlib.Data.Nat.ModEq
import Vllm.Distributed.BroadcastQueue

/-!
# The ring of chunks

The last messages, as many as there are chunks, stand in the chunks of their numbers. A read flag
tells whether the reader has come past the message. No reader is more than one lap behind, so that
a chunk that is not written is one that all readers have left.
-/

namespace Vllm.Distributed.Broadcast

variable {n : Nat}

/-- What a reader reads of a message from its chunk. -/
def Message.shown (maxChunkBytes : Nat) (message : Message) : Option (List Bytes) :=
  if message.overflows maxChunkBytes then none else some message.allBuffers

/-- What a call of `dequeue` returns of a message whose chunk has an index. -/
def Message.handed (maxChunkBytes idx : Nat) (message : Message) : List Buffer :=
  if message.overflows maxChunkBytes then message.allBuffers.map .own
  else loads idx message.allBuffers

/-- The bytes that a buffer shows. -/
def Buffer.shows (chunks : Nat → Chunk n) : Buffer → Bytes
  | .own bytes => bytes
  | .view idx start stop => slice (chunks idx).data start stop

/-- A chunk holds the message of a number; `marks` are the numbers that the readers have reached. -/
structure Holds (maxChunkBytes : Nat) (marks : Fin n → Nat) (k : Nat) (message : Message)
    (chunk : Chunk n) : Prop where
  written : chunk.written = true
  data : readFrame chunk.data = message.shown maxChunkBytes
  flags : ∀ r, chunk.readFlags r = decide (k < marks r)

/-- The ring with the published messages. -/
structure Ring (maxChunkBytes maxChunks : Nat) (chunks : Nat → Chunk n)
    (published : List Message) (marks : Fin n → Nat) : Prop where
  behind : ∀ r, marks r ≤ published.length
  ahead : ∀ r, published.length ≤ marks r + maxChunks
  holds : ∀ k message, published[k]? = some message → published.length ≤ k + maxChunks →
    (published.length = k + maxChunks → (chunks (k % maxChunks)).written = true) →
      Holds maxChunkBytes marks k message (chunks (k % maxChunks))
  free : (chunks (published.length % maxChunks)).written = false →
    ∀ r, published.length < marks r + maxChunks
  fresh : ∀ c, published.length ≤ c → c < maxChunks → (chunks c).written = false

/-- Views of the places from which buffers were read show these buffers. -/
private theorem map_shows_viewsFrom (chunks : Nat → Chunk n) (idx count offset : Nat) :
    (viewsFrom idx offset (readBuffers (chunks idx).data count offset)).map (Buffer.shows chunks)
      = readBuffers (chunks idx).data count offset := by
  induction count generalizing offset with
  | zero => rfl
  | succ count ih =>
    have hstop : offset + 4 + (slice (chunks idx).data (offset + 4) (offset + 4 +
        fromBytesBig (slice (chunks idx).data offset (offset + 4)))).length
        = offset + 4 + fromBytesBig (slice (chunks idx).data offset (offset + 4)) := by
      rw [slice, List.length_map, List.length_range', Nat.add_sub_cancel_left]
    rw [readBuffers, viewsFrom, List.map_cons, hstop, ih, Buffer.shows]

/-- An object loaded from a chunk shows the message as long as the chunk holds it. -/
theorem Holds.map_shows_loads {maxChunkBytes : Nat} {marks : Fin n → Nat} {k idx : Nat}
    {message : Message} {chunks : Nat → Chunk n}
    (h : Holds maxChunkBytes marks k message (chunks idx))
    (hfits : message.overflows maxChunkBytes = false) :
    (loads idx message.allBuffers).map (Buffer.shows chunks) = message.allBuffers := by
  have hdata := h.data
  rw [Message.shown, hfits, if_neg Bool.false_ne_true, readFrame] at hdata
  split at hdata
  · cases hdata
  · have hviews := map_shows_viewsFrom chunks idx
      (fromBytesBig (slice (chunks idx).data 1 3)) 3
    rw [Option.some.inj hdata, Message.allBuffers, viewsFrom, List.map_cons] at hviews
    rw [Message.allBuffers, loads, List.map_cons, (List.cons.inj hviews).2, Buffer.shows]

/-- Two numbers within one lap that share a chunk are a lap apart. -/
theorem eq_add_of_mod_eq {k m lap : Nat} (hmod : k % lap = m % lap) (hlt : k < m)
    (hle : m ≤ k + lap) : m = k + lap := by
  have hdvd : lap ∣ m - k := (Nat.modEq_iff_dvd' hlt.le).mp hmod
  have := Nat.le_of_dvd (by omega) hdvd
  omega

section Ring

variable {maxChunkBytes maxChunks : Nat} {chunks : Nat → Chunk n} {published : List Message}
  {marks : Fin n → Nat}

theorem ring_start (hpos : 0 < maxChunks) :
    Ring maxChunkBytes maxChunks (fun _ => ({} : Chunk n)) [] fun _ => 0 where
  behind := fun _ => le_rfl
  ahead := fun _ => Nat.zero_le _
  holds := fun _ _ h => by cases h
  free := fun _ _ => by
    rw [List.length_nil, Nat.zero_add]
    exact hpos
  fresh := fun _ _ _ => rfl

/-- A reader that is behind has the message of its number before it. -/
theorem Ring.current (h : Ring maxChunkBytes maxChunks chunks published marks) {r : Fin n}
    {message : Message} (hget : published[marks r]? = some message) :
    Holds maxChunkBytes marks (marks r) message (chunks (marks r % maxChunks)) := by
  refine h.holds (marks r) message hget (h.ahead r) fun heq => ?_
  by_contra hnot
  rw [Bool.not_eq_true] at hnot
  have hfree := h.free (by rw [heq, Nat.add_mod_right]; exact hnot) r
  exact Nat.lt_irrefl _ (heq ▸ hfree)

/-- The writer's chunk holds a message where it is written. -/
theorem Ring.holds_writer (h : Ring maxChunkBytes maxChunks chunks published marks)
    (hpos : 0 < maxChunks) (hwritten : (chunks (published.length % maxChunks)).written = true) :
    ∃ k message, published.length = k + maxChunks ∧
      Holds maxChunkBytes marks k message (chunks (published.length % maxChunks)) := by
  have hlap : maxChunks ≤ published.length := by
    by_contra hlt
    have hfresh := h.fresh published.length le_rfl (by omega)
    rw [Nat.mod_eq_of_lt (by omega)] at hwritten
    rw [hwritten] at hfresh
    cases hfresh
  obtain ⟨k, hk⟩ : ∃ k, published.length = k + maxChunks := ⟨published.length - maxChunks, by omega⟩
  have hmod : published.length % maxChunks = k % maxChunks := by rw [hk, Nat.add_mod_right]
  rw [hmod] at hwritten ⊢
  exact ⟨k, published[k], hk, h.holds k _ (List.getElem?_eq_getElem (by omega)) (by omega)
    fun _ => hwritten⟩

/-- A written chunk that its reader has not read is one with a message for it. -/
theorem Ring.lt_of_unread (h : Ring maxChunkBytes maxChunks chunks published marks)
    (hpos : 0 < maxChunks) {r : Fin n}
    (hwritten : (chunks (marks r % maxChunks)).written = true)
    (hunread : (chunks (marks r % maxChunks)).readFlags r = false) :
    marks r < published.length := by
  refine Nat.lt_of_le_of_ne (h.behind r) fun heq => ?_
  rw [heq] at hwritten hunread
  obtain ⟨k, message, hk, hholds⟩ := h.holds_writer hpos hwritten
  rw [hholds.flags r, decide_eq_false_iff_not] at hunread
  omega

/-- In the writer's chunk, where it is written, the read flag tells that the reader is less than a
lap behind. -/
theorem Ring.flag_writer (h : Ring maxChunkBytes maxChunks chunks published marks)
    (hpos : 0 < maxChunks) (hwritten : (chunks (published.length % maxChunks)).written = true)
    (r : Fin n) : (chunks (published.length % maxChunks)).readFlags r = true ↔
      published.length < marks r + maxChunks := by
  obtain ⟨k, message, hk, hholds⟩ := h.holds_writer hpos hwritten
  rw [hholds.flags r, decide_eq_true_eq]
  omega

/-- The writer's chunk may change while it is not written. -/
theorem Ring.unwritten (h : Ring maxChunkBytes maxChunks chunks published marks)
    (hfree : ∀ r, published.length < marks r + maxChunks) {chunk : Chunk n}
    (hchunk : chunk.written = false) :
    Ring maxChunkBytes maxChunks
      (Function.update chunks (published.length % maxChunks) chunk) published marks where
  behind := h.behind
  ahead := h.ahead
  holds := fun k message hget hle hlast => by
    have hlt := (List.getElem?_eq_some_iff.mp hget).1
    by_cases hmod : k % maxChunks = published.length % maxChunks
    · have hlap := hlast (eq_add_of_mod_eq hmod hlt hle)
      rw [hmod, Function.update_self, hchunk] at hlap
      cases hlap
    · rw [Function.update_of_ne hmod] at hlast ⊢
      exact h.holds k message hget hle hlast
  free := fun _ => hfree
  fresh := fun c hle hlt => by
    by_cases heq : c = published.length % maxChunks
    · rw [heq, Function.update_self]
      exact hchunk
    · rw [Function.update_of_ne heq]
      exact h.fresh c hle hlt

/-- Marking the writer's chunk as written publishes its message. -/
theorem Ring.publish (h : Ring maxChunkBytes maxChunks chunks published marks)
    (hpos : 0 < maxChunks) {message : Message}
    (hwritten : (chunks (published.length % maxChunks)).written = false)
    (hdata : readFrame (chunks (published.length % maxChunks)).data = message.shown maxChunkBytes)
    (hflags : ∀ r, (chunks (published.length % maxChunks)).readFlags r = false) :
    Ring maxChunkBytes maxChunks (Function.update chunks (published.length % maxChunks)
      { chunks (published.length % maxChunks) with written := true })
      (published ++ [message]) marks := by
  have hfree := h.free hwritten
  have hlength : (published ++ [message]).length = published.length + 1 := by
    rw [List.length_append, List.length_singleton]
  have hholds : ∀ k m, (published ++ [message])[k]? = some m →
      published.length + 1 ≤ k + maxChunks →
      Holds maxChunkBytes marks k m ((Function.update chunks (published.length % maxChunks)
        { chunks (published.length % maxChunks) with written := true }) (k % maxChunks)) := by
    intro k m hget hle
    rcases Nat.lt_or_ge k published.length with hlt | hge
    · have hmod : k % maxChunks ≠ published.length % maxChunks := by
        intro heq
        have := eq_add_of_mod_eq heq hlt (by omega)
        omega
      rw [List.getElem?_append_left hlt] at hget
      rw [Function.update_of_ne hmod]
      exact h.holds k m hget (by omega) fun heq => by omega
    · rw [List.getElem?_append_right hge, List.getElem?_singleton] at hget
      split at hget
      · obtain rfl := Option.some.inj hget
        obtain rfl : k = published.length := by omega
        rw [Function.update_self]
        refine ⟨rfl, hdata, fun r => ?_⟩
        have := h.behind r
        rw [decide_eq_false (by omega)]
        exact hflags r
      · cases hget
  constructor
  case behind =>
    intro r
    rw [hlength]
    exact (h.behind r).trans (Nat.le_succ _)
  case ahead =>
    intro r
    rw [hlength]
    exact hfree r
  case holds =>
    intro k m hget hle _
    rw [hlength] at hle
    exact hholds k m hget hle
  case free =>
    intro hnext r
    rw [hlength] at hnext ⊢
    -- The next chunk is not written on the first lap only.
    rcases Nat.lt_or_ge (published.length + 1) maxChunks with hlt | hge
    · omega
    · obtain ⟨k, hk⟩ : ∃ k, published.length + 1 = k + maxChunks :=
        ⟨published.length + 1 - maxChunks, by omega⟩
      have hold := hholds k (published ++ [message])[k]
        (List.getElem?_eq_getElem (by rw [hlength]; omega)) (by omega)
      rw [hk, Nat.add_mod_right, hold.written] at hnext
      cases hnext
  case fresh =>
    intro c hle hlt
    rw [hlength] at hle
    have hne : c ≠ published.length % maxChunks := by
      have := Nat.mod_le published.length maxChunks
      omega
    rw [Function.update_of_ne hne]
    exact h.fresh c (by omega) hlt

/-- A reader marks the message before it as read. -/
theorem Ring.mark (h : Ring maxChunkBytes maxChunks chunks published marks) {r : Fin n}
    (hlt : marks r < published.length) :
    Ring maxChunkBytes maxChunks (Function.update chunks (marks r % maxChunks)
      ((chunks (marks r % maxChunks)).markRead r))
      published (Function.update marks r (marks r + 1)) := by
  have hle : ∀ q, marks q ≤ Function.update marks r (marks r + 1) q := by
    intro q
    by_cases heq : q = r
    · subst heq
      rw [Function.update_self]
      exact Nat.le_succ _
    · rw [Function.update_of_ne heq]
  have hwritten : ∀ c, (Function.update chunks (marks r % maxChunks)
      ((chunks (marks r % maxChunks)).markRead r) c).written = (chunks c).written := by
    intro c
    by_cases heq : c = marks r % maxChunks
    · rw [heq, Function.update_self]
      rfl
    · rw [Function.update_of_ne heq]
  constructor
  case behind =>
    intro q
    by_cases heq : q = r
    · subst heq
      rw [Function.update_self]
      exact hlt
    · rw [Function.update_of_ne heq]
      exact h.behind q
  case ahead =>
    intro q
    exact (h.ahead q).trans (Nat.add_le_add_right (hle q) _)
  case free =>
    intro hnot q
    rw [hwritten] at hnot
    exact (h.free hnot q).trans_le (Nat.add_le_add_right (hle q) _)
  case fresh =>
    intro c hc hlap
    rw [hwritten]
    exact h.fresh c hc hlap
  case holds =>
    intro k message hget hlap hlast
    rw [hwritten] at hlast
    have hold := h.holds k message hget hlap hlast
    have hk := (List.getElem?_eq_some_iff.mp hget).1
    have hahead := h.ahead r
    by_cases hmod : k % maxChunks = marks r % maxChunks
    · -- The messages of this chunk within the lap are that one only.
      obtain rfl : k = marks r := by
        rcases Nat.lt_trichotomy k (marks r) with hless | heq | hless
        · have := eq_add_of_mod_eq hmod hless (by omega)
          omega
        · exact heq
        · have := eq_add_of_mod_eq hmod.symm hless (by omega)
          omega
      rw [Function.update_self]
      refine ⟨hold.written, hold.data, fun q => ?_⟩
      by_cases heq : q = r
      · subst heq
        simp only [Chunk.markRead, Function.update_self]
        exact (decide_eq_true (Nat.lt_succ_self _)).symm
      · simp only [Chunk.markRead, Function.update_of_ne heq]
        exact hold.flags q
    · rw [Function.update_of_ne hmod]
      refine ⟨hold.written, hold.data, fun q => ?_⟩
      rw [hold.flags q]
      by_cases heq : q = r
      · subst heq
        have hne : k ≠ marks q := fun heq => hmod (by rw [heq])
        rw [Function.update_self]
        congr 1
        rw [eq_iff_iff]
        omega
      · rw [Function.update_of_ne heq]

end Ring

end Vllm.Distributed.Broadcast
