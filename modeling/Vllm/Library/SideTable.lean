import Mathlib.Data.List.Range

/-!
# Codecs with a side table

An encoder that keeps large payloads out of its message appends them to a side table
and leaves their positions in the message. A decoder reads the message against the whole
table and reports the positions it looked up. A value is carried when, whatever the table
held before and holds afterwards, the decoder gives it back and looks up exactly the
entries that its own encoding added, each once and in order. Carrying passes from the
entries of a list to the list.
-/

namespace SideTable

variable {V U W X B : Type}

/-- The encoding extends the table, and decoding the message against any further extension
gives the value back through the positions that the encoding added. -/
def Carries (enc : List B → W × List B) (dec : List B → W → Option (V × List Nat)) (v : V) : Prop :=
  ∀ table, ∃ added, (enc table).2 = table ++ added ∧ ∀ rest,
    dec (table ++ added ++ rest) (enc table).1 =
      some (v, List.range' table.length added.length)

/-- An encoding that never touches the table carries what its decoder gives back. -/
theorem carries_of_pure {enc : List B → W × List B} {dec : List B → W → Option (V × List Nat)}
    {v : V} (henc : ∀ table, (enc table).2 = table)
    (hdec : ∀ table rest, dec (table ++ rest) (enc table).1 = some (v, [])) :
    Carries enc dec v := by
  intro table
  refine ⟨[], by rw [henc, List.append_nil], fun rest => ?_⟩
  rw [List.append_nil]
  exact hdec table rest

/-- What is carried is still carried when its message is wrapped and its value is read
through a further function. -/
theorem Carries.map {enc : List B → W × List B} {dec : List B → W → Option (V × List Nat)}
    {v : V} (h : Carries enc dec v) {enc' : List B → X × List B}
    {dec' : List B → X → Option (U × List Nat)} {u : U} (wrap : W → X)
    (henc : ∀ table, enc' table = (wrap (enc table).1, (enc table).2))
    (hdec : ∀ start table read, dec table (enc start).1 = some (v, read) →
      dec' table (wrap (enc start).1) = some (u, read)) :
    Carries enc' dec' u := by
  intro table
  obtain ⟨added, htable, hread⟩ := h table
  refine ⟨added, by rw [henc, htable], fun rest => ?_⟩
  rw [henc]
  exact hdec _ _ _ (hread rest)

/-- Two values are carried one after the other: the positions of the second follow those
of the first. -/
theorem Carries.pair {enc : List B → W × List B} {dec : List B → W → Option (V × List Nat)}
    {enc' : List B → X × List B} {dec' : List B → X → Option (U × List Nat)} {v : V} {u : U}
    (h : Carries enc dec v) (h' : Carries enc' dec' u) (table : List B) :
    ∃ added added', (enc table).2 = table ++ added ∧
      (enc' (enc table).2).2 = table ++ (added ++ added') ∧ ∀ rest,
        dec (table ++ (added ++ added') ++ rest) (enc table).1 =
          some (v, List.range' table.length added.length) ∧
        dec' (table ++ (added ++ added') ++ rest) (enc' (enc table).2).1 =
          some (u, List.range' (table.length + added.length) added'.length) := by
  obtain ⟨added, htable, hread⟩ := h table
  obtain ⟨added', htable', hread'⟩ := h' (enc table).2
  refine ⟨added, added', htable, by rw [htable', htable, List.append_assoc], fun rest => ⟨?_, ?_⟩⟩
  · have hfirst := hread (added' ++ rest)
    simpa only [List.append_assoc] using hfirst
  · have hsecond := hread' rest
    rw [htable] at hsecond
    simpa only [List.append_assoc, List.length_append, htable] using hsecond

/-- A head and a tail that are carried are carried as one list. -/
theorem Carries.cons {enc : List B → W × List B} {dec : List B → W → Option (V × List Nat)}
    {encs encs' : List B → List W × List B}
    {decs decs' : List B → List W → Option (List V × List Nat)} {v : V} {vs : List V}
    (h : Carries enc dec v) (hs : Carries encs decs vs)
    (henc : ∀ table, encs' table =
      ((enc table).1 :: (encs (enc table).2).1, (encs (enc table).2).2))
    (hdec : ∀ table w ws v read vs reads, dec table w = some (v, read) →
      decs table ws = some (vs, reads) → decs' table (w :: ws) = some (v :: vs, read ++ reads)) :
    Carries encs' decs' (v :: vs) := by
  intro table
  obtain ⟨added, added', -, htable, hread⟩ := h.pair hs table
  refine ⟨added ++ added', by rw [henc, htable], fun rest => ?_⟩
  obtain ⟨hfirst, hsecond⟩ := hread rest
  rw [henc, List.length_append, ← List.range'_append_1]
  exact hdec _ _ _ _ _ _ _ hfirst hsecond

end SideTable
