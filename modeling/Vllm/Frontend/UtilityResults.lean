import Vllm.Library.DictOrder
import Vllm.Library.SideTable

/-!
# Results of utility calls

Utility results have no declared type, so they travel next to a description of their types:
lists and dictionaries are described entry by entry, every other object by the module and
the name of its type. Type names are two-entry lists of strings on the wire, and so could
be the description of a two-entry list; the decoder never mixes them up.

A message is taken here as the native values that `msgspec` packs, not as the packed bytes;
large payloads of the objects go to auxiliary buffers. The keys of dictionaries are strings:
`msgspec` packs keys of other types too, and these are not modelled.
-/

namespace Vllm.Serial

open SideTable

/-- A buffer of bytes. -/
abbrev Bytes := List UInt8

/-- The native types of a message. -/
inductive Native where
  | nil
  | bool (b : Bool)
  | int (n : Int)
  | float (bits : BitVec 64)
  | str (s : String)
  | ext (code : Int) (data : Bytes)
  | array (xs : List Native)
  | map (kvs : List (String × Native))

/-- A Python object: `None`, nested lists and dictionaries, and objects of other types. -/
inductive PyObject (Obj : Type) where
  | none
  | leaf (o : Obj)
  | list (xs : List (PyObject Obj))
  | dict (kvs : List (String × PyObject Obj))

/-- How objects of other types travel. -/
structure ObjectCodec (Obj : Type) where
  /-- The module and the qualified name of the type. -/
  typestr : Obj → String × String
  /-- The object in native types, as `msgspec` and the encoder's hook give it. -/
  enc : Obj → List Bytes → Native × List Bytes
  /-- `msgspec.convert` to a named type, with the decoder's hook. -/
  convert : String × String → List Bytes → Native → Option (Obj × List Nat)
  /-- Native data that is not converted. -/
  raw : Native → Obj

variable {Obj : Type}

mutual

/-- Every dictionary in an object has each of its keys once. -/
def PyObject.DistinctKeys : PyObject Obj → Prop
  | .none => True
  | .leaf _ => True
  | .list xs => distinctKeysList xs
  | .dict kvs => (kvs.map Prod.fst).Nodup ∧ distinctKeysEntries kvs

/-- `DistinctKeys` of the entries of a list. -/
def distinctKeysList : List (PyObject Obj) → Prop
  | [] => True
  | x :: xs => x.DistinctKeys ∧ distinctKeysList xs

/-- `DistinctKeys` of the values of a dictionary. -/
def distinctKeysEntries : List (String × PyObject Obj) → Prop
  | [] => True
  | (_, x) :: kvs => x.DistinctKeys ∧ distinctKeysEntries kvs

end

variable (codec : ObjectCodec Obj)

mutual

/-- `_encode_type_info_recursive` -/
def encodeTypeInfo : PyObject Obj → Native
  | .none => .nil
  | .leaf o => .array [.str (codec.typestr o).1, .str (codec.typestr o).2]
  | .list xs => .array (encodeTypeInfoList xs)
  | .dict kvs => .map (encodeTypeInfoEntries kvs)

/-- The entries of a list in `_encode_type_info_recursive`. -/
def encodeTypeInfoList : List (PyObject Obj) → List Native
  | [] => []
  | x :: xs => encodeTypeInfo x :: encodeTypeInfoList xs

/-- The values of a dictionary in `_encode_type_info_recursive`. -/
def encodeTypeInfoEntries : List (String × PyObject Obj) → List (String × Native)
  | [] => []
  | (k, x) :: kvs => (k, encodeTypeInfo x) :: encodeTypeInfoEntries kvs

end

mutual

/-- An object in native types. -/
def encodeObject : PyObject Obj → List Bytes → Native × List Bytes
  | .none, auxBuffers => (.nil, auxBuffers)
  | .leaf o, auxBuffers => codec.enc o auxBuffers
  | .list xs, auxBuffers =>
    let r := encodeObjectList xs auxBuffers
    (.array r.1, r.2)
  | .dict kvs, auxBuffers =>
    let r := encodeObjectEntries kvs auxBuffers
    (.map r.1, r.2)

/-- The entries of a list in native types. -/
def encodeObjectList : List (PyObject Obj) → List Bytes → List Native × List Bytes
  | [], auxBuffers => ([], auxBuffers)
  | x :: xs, auxBuffers =>
    ((encodeObject x auxBuffers).1 :: (encodeObjectList xs (encodeObject x auxBuffers).2).1,
      (encodeObjectList xs (encodeObject x auxBuffers).2).2)

/-- The values of a dictionary in native types. -/
def encodeObjectEntries :
    List (String × PyObject Obj) → List Bytes → List (String × Native) × List Bytes
  | [], auxBuffers => ([], auxBuffers)
  | (k, x) :: kvs, auxBuffers =>
    ((k, (encodeObject x auxBuffers).1) ::
        (encodeObjectEntries kvs (encodeObject x auxBuffers).2).1,
      (encodeObjectEntries kvs (encodeObject x auxBuffers).2).2)

end

/-- `obj and isinstance(obj[0], str)` -/
def startsWithStr : List Native → Bool
  | .str _ :: _ => true
  | _ => false

/-- `len(type_info) != 2 or not isinstance(type_info[0], str)`: not a type name. -/
def describesList (typeInfo : List Native) : Bool :=
  typeInfo.length != 2 || !startsWithStr typeInfo

/-- `result_type` as a module and a name. -/
def typeName : List Native → Option (String × String)
  | [.str modName, .str name] => some (modName, name)
  | _ => none

/-- The dictionary of a native map. -/
def dictOf {α : Type} (kvs : List (String × α)) : Dict String α :=
  kvs.foldl (fun d e => d.insert e.1 e.2) Dict.empty

mutual

/-- `_decode_type_info_recursive` -/
def decodeTypeInfo (auxBuffers : List Bytes) :
    Native → Native → Option (PyObject Obj × List Nat)
  | .nil, data =>
    match data with
    | .nil => some (.none, [])
    | data => some (.leaf (codec.raw data), [])
  | .map typeInfo, .map data =>
    (decodeTypeInfoEntries auxBuffers typeInfo (dictOf data)).map fun r => (.dict r.1, r.2)
  | .array typeInfo, data =>
    if describesList typeInfo then
      match data with
      | .array data =>
        (decodeTypeInfoList auxBuffers typeInfo data).map fun r => (.list r.1, r.2)
      | _ => none
    else do
      let (o, read) ← codec.convert (← typeName typeInfo) auxBuffers data
      some (.leaf o, read)
  | _, _ => none

/-- `zip(type_info, data)` in `_decode_type_info_recursive`. -/
def decodeTypeInfoList (auxBuffers : List Bytes) :
    List Native → List Native → Option (List (PyObject Obj) × List Nat)
  | ti :: typeInfo, d :: data => do
    let (x, read) ← decodeTypeInfo auxBuffers ti d
    let (xs, reads) ← decodeTypeInfoList auxBuffers typeInfo data
    some (x :: xs, read ++ reads)
  | _, _ => some ([], [])

/-- The keys of the type information in `_decode_type_info_recursive`. -/
def decodeTypeInfoEntries (auxBuffers : List Bytes) :
    List (String × Native) → Dict String Native →
      Option (List (String × PyObject Obj) × List Nat)
  | [], _ => some ([], [])
  | (k, ti) :: typeInfo, data => do
    let (x, read) ← decodeTypeInfo auxBuffers ti (← data.get? k)
    let (kvs, reads) ← decodeTypeInfoEntries auxBuffers typeInfo data
    some ((k, x) :: kvs, read ++ reads)

end

/-- The branch of `MsgpackEncoder.enc_hook` for a `UtilityResult`. -/
def encodeUtilityResult (allowInsecure : Bool) (result : PyObject Obj)
    (auxBuffers : List Bytes) : (Native × Native) × List Bytes :=
  let data := encodeObject codec result auxBuffers
  (((if allowInsecure then encodeTypeInfo codec result else .nil), data.1), data.2)

/-- `MsgpackDecoder._decode_utility_result` -/
def decodeUtilityResult (allowInsecure : Bool) (auxBuffers : List Bytes)
    (obj : Native × Native) : Option (PyObject Obj × List Nat) :=
  match obj.1 with
  | .nil => decodeTypeInfo codec auxBuffers .nil obj.2
  | resultType =>
    if allowInsecure then decodeTypeInfo codec auxBuffers resultType obj.2 else none

/-- Objects of other types come back from `msgspec.convert` to their own type. -/
def ObjectCodec.Converts (codec : ObjectCodec Obj) : Prop :=
  ∀ o, Carries (codec.enc o) (codec.convert (codec.typestr o)) o

/-- Reading distinct keys in order keeps the entries. -/
private theorem entries_foldl_insert {α : Type} (d : Dict String α) (kvs : List (String × α))
    (hkeys : ((d.entries ++ kvs).map Prod.fst).Nodup) :
    (kvs.foldl (fun d e => d.insert e.1 e.2) d).entries = d.entries ++ kvs := by
  induction kvs generalizing d with
  | nil => rw [List.foldl_nil, List.append_nil]
  | cons e kvs ih =>
    have habsent : d.get? e.1 = none := by
      cases hget : d.get? e.1 with
      | none => rfl
      | some a =>
        have hmem : e.1 ∈ d.entries.map Prod.fst :=
          List.mem_map.mpr ⟨_, d.mem_entries_iff.mpr hget, rfl⟩
        rw [List.map_append] at hkeys
        exact absurd rfl ((List.nodup_append.mp hkeys).2.2 _ hmem _ (by simp))
    have hentries := Dict.entries_insert_of_absent habsent e.2
    rw [List.foldl_cons, ih _ (by simpa [hentries] using hkeys), hentries]
    simp

/-- The dictionary of distinct keys has the given entries. -/
theorem entries_dictOf {α : Type} {kvs : List (String × α)} (hkeys : (kvs.map Prod.fst).Nodup) :
    (dictOf kvs).entries = kvs := by
  have h := entries_foldl_insert Dict.empty kvs (by simpa [Dict.empty] using hkeys)
  simpa [Dict.empty, dictOf] using h

/-- The description of an object is never a string. -/
private theorem startsWithStr_typeInfo (xs : List (PyObject Obj)) :
    startsWithStr (encodeTypeInfoList codec xs) = false := by
  cases xs with
  | nil => simp only [encodeTypeInfoList, startsWithStr]
  | cons x xs => cases x <;> simp only [encodeTypeInfoList, encodeTypeInfo, startsWithStr]

/-- The description of a list is taken for the description of a list. -/
theorem describesList_typeInfo (xs : List (PyObject Obj)) :
    describesList (encodeTypeInfoList codec xs) = true := by
  rw [describesList, startsWithStr_typeInfo, Bool.not_false, Bool.or_true]

/-- Encoding the values of a dictionary keeps its keys. -/
theorem keys_encodeObjectEntries (kvs : List (String × PyObject Obj)) (table : List Bytes) :
    (encodeObjectEntries codec kvs table).1.map Prod.fst = kvs.map Prod.fst := by
  induction kvs generalizing table with
  | nil => simp only [encodeObjectEntries, List.map_nil]
  | cons e kvs ih => simp only [encodeObjectEntries, List.map_cons, ih]

/-- The values of a dictionary come back through any dictionary that holds them. -/
def EntriesCarried (kvs : List (String × PyObject Obj)) : Prop :=
  ∀ table, ∃ added, (encodeObjectEntries codec kvs table).2 = table ++ added ∧
    ∀ rest (data : Dict String Native),
      (∀ e ∈ (encodeObjectEntries codec kvs table).1, data.get? e.1 = some e.2) →
      decodeTypeInfoEntries codec (table ++ added ++ rest) (encodeTypeInfoEntries codec kvs)
        data = some (kvs, List.range' table.length added.length)

/-- A value in front of values that come back comes back with them. -/
theorem entriesCarried_cons {k : String} {x : PyObject Obj} {kvs : List (String × PyObject Obj)}
    (hx : Carries (encodeObject codec x)
      (fun bufs => decodeTypeInfo codec bufs (encodeTypeInfo codec x)) x)
    (hkvs : EntriesCarried codec kvs) : EntriesCarried codec ((k, x) :: kvs) := by
  intro table
  obtain ⟨added, htable, hread⟩ := hx table
  obtain ⟨added', htable', hread'⟩ := hkvs (encodeObject codec x table).2
  refine ⟨added ++ added', ?_, fun rest data hdata => ?_⟩
  · rw [encodeObjectEntries, htable', htable, List.append_assoc]
  · rw [encodeObjectEntries, List.forall_mem_cons] at hdata
    have hfirst := hread (added' ++ rest)
    have hsecond := hread' rest data hdata.2
    rw [htable] at hsecond
    rw [← List.append_assoc] at hfirst
    rw [← List.append_assoc]
    simp only [encodeTypeInfoEntries, decodeTypeInfoEntries, hdata.1, hfirst, hsecond,
      Option.bind_eq_bind, Option.bind_some, List.length_append, List.range'_append_1]

mutual

/-- An object is carried next to its description. -/
theorem carries_object (hcodec : codec.Converts) : ∀ x : PyObject Obj, x.DistinctKeys →
    Carries (encodeObject codec x)
      (fun bufs => decodeTypeInfo codec bufs (encodeTypeInfo codec x)) x
  | .none, _ => by
    apply carries_of_pure
    · intro table
      simp only [encodeObject]
    · intro table rest
      simp only [encodeObject, encodeTypeInfo, decodeTypeInfo]
  | .leaf o, _ => by
    apply (hcodec o).map id
    · intro table
      simp only [encodeObject, id_eq]
    · intro start table read hread
      have hname : describesList [.str (codec.typestr o).1, .str (codec.typestr o).2] = false := by
        simp [describesList, startsWithStr]
      rw [encodeTypeInfo, decodeTypeInfo.eq_def]
      simp only [hname, Bool.false_eq_true, if_false, typeName, id_eq, hread,
        Option.bind_eq_bind, Option.bind_some]
  | .list xs, hkeys => by
    apply (carries_objectList hcodec xs (by simpa only [PyObject.DistinctKeys] using hkeys)).map
      .array
    · intro table
      simp only [encodeObject]
    · intro start table read hread
      rw [encodeTypeInfo, decodeTypeInfo.eq_def]
      simp only [describesList_typeInfo, if_true, hread, Option.map_some]
  | .dict kvs, hkeys => by
    rw [PyObject.DistinctKeys] at hkeys
    intro table
    obtain ⟨added, htable, hread⟩ := carries_objectEntries hcodec kvs hkeys.2 table
    refine ⟨added, by rw [encodeObject, htable], fun rest => ?_⟩
    have hnodup : ((encodeObjectEntries codec kvs table).1.map Prod.fst).Nodup := by
      rw [keys_encodeObjectEntries]
      exact hkeys.1
    have hdata : ∀ e ∈ (encodeObjectEntries codec kvs table).1,
        (dictOf (encodeObjectEntries codec kvs table).1).get? e.1 = some e.2 := by
      intro e he
      rw [← Dict.mem_entries_iff, entries_dictOf hnodup]
      exact he
    rw [encodeObject, encodeTypeInfo]
    change decodeTypeInfo codec _ (.map _) (.map _) = _
    rw [decodeTypeInfo, hread rest _ hdata, Option.map_some]

/-- The entries of a list are carried next to their descriptions. -/
theorem carries_objectList (hcodec : codec.Converts) : ∀ xs : List (PyObject Obj),
    distinctKeysList xs → Carries (encodeObjectList codec xs)
      (fun bufs => decodeTypeInfoList codec bufs (encodeTypeInfoList codec xs)) xs
  | [], _ => by
    apply carries_of_pure
    · intro table
      simp only [encodeObjectList]
    · intro table rest
      simp only [encodeObjectList, encodeTypeInfoList, decodeTypeInfoList]
  | x :: xs, hkeys => by
    rw [distinctKeysList] at hkeys
    apply (carries_object hcodec x hkeys.1).cons (carries_objectList hcodec xs hkeys.2)
    · intro table
      simp only [encodeObjectList]
    · intro table w ws v read vs reads hfirst hsecond
      simp only [encodeTypeInfoList, decodeTypeInfoList, hfirst, hsecond, Option.bind_eq_bind,
        Option.bind_some]

/-- The values of a dictionary come back next to their descriptions. -/
theorem carries_objectEntries (hcodec : codec.Converts) :
    ∀ kvs : List (String × PyObject Obj), distinctKeysEntries kvs → EntriesCarried codec kvs
  | [], _ => by
    intro table
    refine ⟨[], by simp only [encodeObjectEntries, List.append_nil], fun rest data _ => ?_⟩
    simp only [encodeTypeInfoEntries, decodeTypeInfoEntries, List.length_nil, List.range'_zero]
  | (k, x) :: kvs, hkeys => by
    rw [distinctKeysEntries] at hkeys
    exact entriesCarried_cons codec (carries_object hcodec x hkeys.1)
      (carries_objectEntries hcodec kvs hkeys.2)

end

/-- With pickling allowed, a result is decoded along its description. -/
private theorem decodeUtilityResult_true (bufs : List Bytes) (obj : Native × Native) :
    decodeUtilityResult codec true bufs obj = decodeTypeInfo codec bufs obj.1 obj.2 := by
  obtain ⟨resultType, data⟩ := obj
  cases resultType <;> simp only [decodeUtilityResult, if_true]

/-- Without pickling, every described result is refused. -/
private theorem decodeUtilityResult_false (bufs : List Bytes) {resultType : Native} (data : Native)
    (hdescribed : resultType ≠ .nil) :
    decodeUtilityResult codec false bufs (resultType, data) = none := by
  cases resultType with
  | nil => exact absurd rfl hdescribed
  | _ => simp only [decodeUtilityResult, Bool.false_eq_true, if_false]

/-- With pickling allowed, a utility result comes back with the types of all its objects,
however lists and dictionaries are nested, and reads the buffers of its own encoding, each
once; without it, the description of any result but `None` is refused. -/
theorem utilityResult_roundTrip (hcodec : codec.Converts) {result : PyObject Obj}
    (hkeys : result.DistinctKeys) (table : List Bytes) :
    ∃ added, (encodeUtilityResult codec true result table).2 = table ++ added ∧ ∀ rest,
      decodeUtilityResult codec true (table ++ added ++ rest)
          (encodeUtilityResult codec true result table).1 =
        some (result, List.range' table.length added.length) ∧
      (encodeTypeInfo codec result ≠ .nil → decodeUtilityResult codec false
        (table ++ added ++ rest) (encodeUtilityResult codec true result table).1 = none) := by
  obtain ⟨added, htable, hread⟩ := carries_object codec hcodec result hkeys table
  refine ⟨added, htable, fun rest => ⟨?_, fun hdescribed => ?_⟩⟩
  · rw [decodeUtilityResult_true]
    exact hread rest
  · simp only [encodeUtilityResult, if_true]
    exact decodeUtilityResult_false codec _ _ hdescribed

/-- Integers and strings, as `msgspec` carries and converts them. -/
def builtinsCodec : ObjectCodec (Int ⊕ String) where
  typestr
    | .inl _ => ("builtins", "int")
    | .inr _ => ("builtins", "str")
  enc
    | .inl n, auxBuffers => (.int n, auxBuffers)
    | .inr s, auxBuffers => (.str s, auxBuffers)
  convert
    | ("builtins", "int"), _, .int n => some (.inl n, [])
    | ("builtins", "str"), _, .str s => some (.inr s, [])
    | _, _, _ => none
  raw
    | .int n => .inl n
    | .str s => .inr s
    | _ => .inl 0

private theorem builtinsCodec_converts : builtinsCodec.Converts := by
  intro o
  cases o <;> exact carries_of_pure (fun _ => rfl) fun _ _ => rfl

/-- A list of two strings is not taken for the name of a type. -/
theorem utilityResult_twoStrings :
    ∃ added, (encodeUtilityResult builtinsCodec true
        (.list [.leaf (.inr "builtins"), .leaf (.inr "int")]) [[]]).2 = [[]] ++ added ∧ ∀ rest,
      decodeUtilityResult builtinsCodec true ([[]] ++ added ++ rest)
          (encodeUtilityResult builtinsCodec true
            (.list [.leaf (.inr "builtins"), .leaf (.inr "int")]) [[]]).1 =
        some (.list [.leaf (.inr "builtins"), .leaf (.inr "int")],
          List.range' 1 added.length) ∧
      (encodeTypeInfo builtinsCodec (.list [.leaf (.inr "builtins"), .leaf (.inr "int")]) ≠ .nil →
        decodeUtilityResult builtinsCodec false ([[]] ++ added ++ rest)
          (encodeUtilityResult builtinsCodec true
            (.list [.leaf (.inr "builtins"), .leaf (.inr "int")]) [[]]).1 = none) := by
  apply utilityResult_roundTrip builtinsCodec builtinsCodec_converts
  simp [PyObject.DistinctKeys, distinctKeysList]

end Vllm.Serial
