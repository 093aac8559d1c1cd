import Vllm.Core.ItemsMet
import Vllm.Library.Stretches

/-!
# What a block hash separates

Under a collision-free hash function, equal block hashes mean equal tokens and equal flat
extra-key lists in every block of the prefix. The flat list carries no tags, so it does not
determine the adapter name, the items and the salt. The ways in which two requests can share
a block hash and still differ are told by their adapters, salts and item offsets: they
collide, or one of them hides an item.
-/

namespace Vllm

open HashChain Stretches

variable {H : Type}

/-- What two requests sharing block hash `i` are meant to have in common. -/
structure AgreeUpTo (blockSize : Nat) (r r' : Request H) (i : Nat) : Prop where
  tokens : r.allTokenIds.take ((i + 1) * blockSize) = r'.allTokenIds.take ((i + 1) * blockSize)
  lora : r.loraRequest.map (·.loraName) = r'.loraRequest.map (·.loraName)
  salt : r.cacheSalt = r'.cacheSalt
  ids : overlappingIds r ((i + 1) * blockSize) = overlappingIds r' ((i + 1) * blockSize)

/-- Requests with the same block hash at index `i` agree up to block `i`. -/
def SeparatedAt (env : HashEnv H) (blockSize : Nat) (r r' : Request H) (i : Nat) : Prop :=
  ∀ h, (scratchHashes env blockSize r)[i]? = some h →
    (scratchHashes env blockSize r')[i]? = some h → AgreeUpTo blockSize r r' i

/-- The salt of the first block: an empty one counts as none. -/
def saltWords (r : Request H) : List String := r.cacheSalt.toList.filter (· ≠ "")

/-- The two requests have the tokens of the blocks up to `i`, and the same ones. -/
def SharePrefix (blockSize : Nat) (r r' : Request H) (i : Nat) : Prop :=
  (i + 1) * blockSize ≤ r.numTokens ∧ (i + 1) * blockSize ≤ r'.numTokens ∧
    r.allTokenIds.take ((i + 1) * blockSize) = r'.allTokenIds.take ((i + 1) * blockSize)

/-- Same adapter name, and block by block the same identifiers of the items met. -/
structure ReadAlike (blockSize : Nat) (r r' : Request H) (i : Nat) : Prop where
  lora : r.loraRequest.map (·.loraName) = r'.loraRequest.map (·.loraName)
  ids : ∀ j, j ≤ i → metIds blockSize r j = metIds blockSize r' j

/-- The ways in which two requests get the same extra keys in every block up to `i` without
agreeing on what the keys stand for, while no item is hidden. -/
inductive Collision (blockSize : Nat) (r r' : Request H) (i : Nat) : Prop where
  /-- Only the first request has an adapter, and the second request's items, or its salt,
  spell the adapter name in front of every block's keys. -/
  | loraAsKey (lora : LoRARequest) (hl : r.loraRequest = some lora) (hl' : r'.loraRequest = none)
      (first : lora.loraName :: (metIds blockSize r 0 ++ saltWords r) =
        metIds blockSize r' 0 ++ saltWords r')
      (later : ∀ j, 0 < j → j ≤ i → lora.loraName :: metIds blockSize r j = metIds blockSize r' j)
  /-- The adapters agree, and the first request's salt is the identifier of an extra last item
  of the second request's first block. -/
  | saltAsItem (hl : r.loraRequest.map (·.loraName) = r'.loraRequest.map (·.loraName))
      (hs : saltWords r ≠ []) (hs' : saltWords r' = [])
      (first : metIds blockSize r 0 ++ saltWords r = metIds blockSize r' 0)
      (later : ∀ j, 0 < j → j ≤ i → metIds blockSize r j = metIds blockSize r' j)
  /-- An empty salt, which counts as none, against none. -/
  | emptySalt (alike : ReadAlike blockSize r r' i) (hs : r.cacheSalt = some "")
      (hs' : r'.cacheSalt = none)
  /-- A stretch of equal identifiers stands for different numbers of items: one item across a
  block boundary against two of the same identifier. -/
  | itemsAcross (alike : ReadAlike blockSize r r' i) (hs : r.cacheSalt = r'.cacheSalt)
      (hi : ShowsItems blockSize r i) (hi' : ShowsItems blockSize r' i) (p : Nat)
      (hp : EndsAt ((metUpTo blockSize r i).map (identifierAt r)) p)
      (hn : ((metUpTo blockSize r i).take p).dedup.length ≠
        ((metUpTo blockSize r' i).take p).dedup.length)

/-- The two requests share a prefix of tokens and collide. -/
def CollideAt (blockSize : Nat) (r r' : Request H) (i : Nat) : Prop :=
  SharePrefix blockSize r r' i ∧ (Collision blockSize r r' i ∨ Collision blockSize r' r i)

/-- The two requests share a prefix of tokens, their adapters, salts and item identifiers read
alike, and one of them has an item with tokens in the prefix that no block meets, or one
without tokens that a block meets. -/
def HiddenAt (blockSize : Nat) (r r' : Request H) (i : Nat) : Prop :=
  SharePrefix blockSize r r' i ∧ ReadAlike blockSize r r' i ∧ r.cacheSalt = r'.cacheSalt ∧
    ¬ (ShowsItems blockSize r i ∧ ShowsItems blockSize r' i)

/-! ## From hashes to key lists -/

/-- Two requests share block hash `i` exactly when they share every token and every
flat key list up to block `i`. -/
theorem scratchHashes_eq_iff {env : HashEnv H} (he : env.CollisionFree) {blockSize : Nat}
    (hb : 0 < blockSize) (r r' : Request H) (i : Nat) :
    (∃ h, (scratchHashes env blockSize r)[i]? = some h ∧
        (scratchHashes env blockSize r')[i]? = some h) ↔
      SharePrefix blockSize r r' i ∧
        ∀ j, j ≤ i → flatKeys env blockSize r j = flatKeys env blockSize r' j := by
  have hidx (q : Request H) : i < q.numTokens / blockSize ↔ (i + 1) * blockSize ≤ q.numTokens := by
    rw [← Nat.succ_le_iff, Nat.le_div_iff_mul_le hb]
  rw [scratchHashes_eq_chain env hb, scratchHashes_eq_chain env hb]
  constructor
  · rintro ⟨h, hr, hr'⟩
    have hi := lt_of_getElem?_chain hr
    have hi' := lt_of_getElem?_chain hr'
    rw [length_scratchInputs] at hi hi'
    have htake := (eq_take_of_getElem? he.separating hr hr').2
    rw [take_scratchInputs _ _ _ (by omega), take_scratchInputs _ _ _ (by omega)] at htake
    have hentry : ∀ j, j < i + 1 → blockTokens blockSize r j = blockTokens blockSize r' j ∧
        flatKeys env blockSize r j = flatKeys env blockSize r' j := by
      intro j hj
      have hj' := congrArg (·[j]?) htake
      simp only [getElem?_scratchInputs env blockSize r hj,
        getElem?_scratchInputs env blockSize r' hj, Option.some.injEq, Prod.mk.injEq] at hj'
      exact ⟨hj'.1, packKeys_injective hj'.2⟩
    refine ⟨⟨(hidx r).mp hi, (hidx r').mp hi', ?_⟩, fun j hj => (hentry j (by omega)).2⟩
    exact (blockTokens_eq_iff blockSize r r' (i + 1)).mp fun j hj => (hentry j hj).1
  · rintro ⟨⟨hlen, hlen', htok⟩, hkeys⟩
    have hi := (hidx r).mpr hlen
    have hi' := (hidx r').mpr hlen'
    have hinputs :
        scratchInputs env blockSize r (i + 1) = scratchInputs env blockSize r' (i + 1) := by
      apply List.map_congr_left
      intro j hj
      have hj' := List.mem_range.mp hj
      rw [hkeys j (by omega), (blockTokens_eq_iff blockSize r r' (i + 1)).mpr htok j hj']
    refine ⟨_, getElem?_chain _ _ _ (by simpa using hi), ?_⟩
    rw [getElem?_chain _ _ _ (by simpa using hi'), take_scratchInputs _ _ _ (by omega),
      take_scratchInputs _ _ _ (by omega), hinputs]

/-! ## From key lists to adapters, items and salts -/

/-- The adapter name as the extra keys carry it. -/
private def loraWords (r : Request H) : List String := (r.loraRequest.map (·.loraName)).toList

variable {r r' : Request H}

/-- Without prompt embeddings the flat keys are words, and only the first block carries the
salt. -/
private theorem flatKeys_eq_iff (env : HashEnv H) {blockSize : Nat} (hb : 0 < blockSize)
    (hr : r.promptEmbeds = none) (hr' : r'.promptEmbeds = none) (i : Nat) :
    (∀ j, j ≤ i → flatKeys env blockSize r j = flatKeys env blockSize r' j) ↔
      loraWords r ++ (metIds blockSize r 0 ++ saltWords r) =
        loraWords r' ++ (metIds blockSize r' 0 ++ saltWords r') ∧
      ∀ j, 0 < j → j ≤ i →
        loraWords r ++ metIds blockSize r j = loraWords r' ++ metIds blockSize r' j := by
  have hinj : Function.Injective (List.map ExtraKey.str) :=
    List.map_injective_iff.mpr fun _ _ h => ExtraKey.str.inj h
  have hlora (q : Request H) : genLoraExtraHashKeys q = (loraWords q).map .str := by
    rw [genLoraExtraHashKeys, loraWords]
    cases q.loraRequest <;> rfl
  have hsalt (q : Request H) : cacheSaltKeys q 0 = (saltWords q).map .str := by
    rw [cacheSaltKeys, saltWords]
    cases q.cacheSalt with
    | none => rfl
    | some salt => by_cases h : salt = "" <;> simp [h]
  have hzero (q : Request H) (hq : q.promptEmbeds = none) : flatKeys env blockSize q 0 =
      (loraWords q ++ (metIds blockSize q 0 ++ saltWords q)).map .str := by
    simp [flatKeys, genPromptEmbedsExtraHashKeys, hq, hlora, hsalt, mmKeys_eq_metIds]
  have hpos (q : Request H) (hq : q.promptEmbeds = none) {j : Nat} (hj : 0 < j) :
      flatKeys env blockSize q j = (loraWords q ++ metIds blockSize q j).map .str := by
    have hne : j * blockSize ≠ 0 := Nat.ne_of_gt (Nat.mul_pos hj hb)
    have hnone : cacheSaltKeys q (j * blockSize) = [] := by
      unfold cacheSaltKeys
      split <;> simp [hne]
    simp [flatKeys, genPromptEmbedsExtraHashKeys, hq, hlora, hnone, mmKeys_eq_metIds]
  constructor
  · intro h
    refine ⟨hinj ?_, fun j hj hle => hinj ?_⟩
    · rw [← hzero r hr, ← hzero r' hr', h 0 (Nat.zero_le i)]
    · rw [← hpos r hr hj, ← hpos r' hr' hj, h j hle]
  · rintro ⟨hfirst, hlater⟩ j hle
    rcases Nat.eq_zero_or_pos j with rfl | hj
    · rw [hzero r hr, hzero r' hr', hfirst]
    · rw [hpos r hr hj, hpos r' hr' hj, hlater j hj hle]

private theorem saltWords_eq_nil_iff (r : Request H) :
    saltWords r = [] ↔ r.cacheSalt = none ∨ r.cacheSalt = some "" := by
  rw [saltWords]
  cases r.cacheSalt with
  | none => simp
  | some salt => by_cases hs : salt = "" <;> simp [hs]

private theorem saltWords_of_ne_nil {r : Request H} (h : saltWords r ≠ []) :
    ∃ salt, r.cacheSalt = some salt ∧ saltWords r = [salt] := by
  rw [Ne, saltWords_eq_nil_iff, not_or] at h
  cases hs : r.cacheSalt with
  | none => exact absurd hs h.1
  | some salt =>
    have hne : salt ≠ "" := fun he => h.2 (he ▸ hs)
    exact ⟨salt, rfl, by simp [saltWords, hs, hne]⟩

private theorem loraWords_eq_iff (r r' : Request H) : loraWords r = loraWords r' ↔
    r.loraRequest.map (·.loraName) = r'.loraRequest.map (·.loraName) := by
  rw [loraWords, loraWords]
  cases r.loraRequest <;> cases r'.loraRequest <;> simp

/-- Requests that read alike, with salts that count the same, have the same keys. -/
private theorem ReadAlike.words_eq {blockSize i : Nat} (h : ReadAlike blockSize r r' i)
    (hs : saltWords r = saltWords r') :
    loraWords r ++ (metIds blockSize r 0 ++ saltWords r) =
        loraWords r' ++ (metIds blockSize r' 0 ++ saltWords r') ∧
      ∀ j, 0 < j → j ≤ i →
        loraWords r ++ metIds blockSize r j = loraWords r' ++ metIds blockSize r' j := by
  rw [(loraWords_eq_iff r r').mpr h.lora, hs, h.ids 0 (Nat.zero_le i)]
  exact ⟨rfl, fun j _ hle => by rw [h.ids j hle]⟩

/-- Colliding requests have the same key lists. -/
private theorem Collision.flatKeys_eq {blockSize i : Nat} (hb : 0 < blockSize) (env : HashEnv H)
    (hr : r.promptEmbeds = none) (hr' : r'.promptEmbeds = none) (hc : Collision blockSize r r' i) :
    ∀ j, j ≤ i → flatKeys env blockSize r j = flatKeys env blockSize r' j := by
  rw [flatKeys_eq_iff env hb hr hr']
  cases hc with
  | loraAsKey lora hl hl' first later =>
    simpa only [loraWords, hl, hl', Option.map_some, Option.map_none, Option.toList_some,
      Option.toList_none, List.singleton_append, List.nil_append] using And.intro first later
  | saltAsItem hl hs hs' first later =>
    rw [(loraWords_eq_iff r r').mpr hl, hs', List.append_nil, first]
    exact ⟨rfl, fun j hj hle => by rw [later j hj hle]⟩
  | emptySalt alike hs hs' =>
    apply alike.words_eq
    rw [(saltWords_eq_nil_iff r).mpr (Or.inr hs), (saltWords_eq_nil_iff r').mpr (Or.inl hs')]
  | itemsAcross alike hs => exact alike.words_eq (by rw [saltWords, saltWords, hs])

/-- Requests that read alike and show their items have the same items exactly when every
stretch of equal identifiers stands for as many items in both. -/
private theorem ReadAlike.overlappingIds_eq_iff {blockSize i : Nat} (h : ReadAlike blockSize r r' i)
    (hi : ShowsItems blockSize r i) (hi' : ShowsItems blockSize r' i) :
    overlappingIds r ((i + 1) * blockSize) = overlappingIds r' ((i + 1) * blockSize) ↔
      ∀ p, EndsAt ((metUpTo blockSize r i).map (identifierAt r)) p →
        ((metUpTo blockSize r i).take p).dedup.length =
          ((metUpTo blockSize r' i).take p).dedup.length := by
  rw [hi.overlappingIds_eq, hi'.overlappingIds_eq]
  exact dedup_map_eq_iff (pairwise_metUpTo _ _ _) (pairwise_metUpTo _ _ _) (map_metUpTo h.ids)

/-- Colliding requests differ in adapter, salt or items. -/
private theorem Collision.not_agree {blockSize i : Nat} (hc : Collision blockSize r r' i) :
    ¬ AgreeUpTo blockSize r r' i := by
  intro ha
  cases hc with
  | loraAsKey lora hl hl' first later => simpa [hl, hl'] using ha.lora
  | saltAsItem hl hs hs' first later =>
    apply hs
    rw [saltWords, ha.salt]
    exact hs'
  | emptySalt alike hs hs' => simpa [hs, hs'] using ha.salt
  | itemsAcross alike hs hi hi' p hp hn =>
    exact hn ((alike.overlappingIds_eq_iff hi hi').mp ha.ids p hp)

/-- With one adapter, equal key lists and no agreement come from salts or items. -/
private theorem collision_of_same_lora {blockSize i : Nat} (hshare : SharePrefix blockSize r r' i)
    (hl : r.loraRequest.map (·.loraName) = r'.loraRequest.map (·.loraName))
    (first : metIds blockSize r 0 ++ saltWords r = metIds blockSize r' 0 ++ saltWords r')
    (later : ∀ j, 0 < j → j ≤ i → metIds blockSize r j = metIds blockSize r' j)
    (hhidden : ¬ HiddenAt blockSize r r' i) (hn : ¬ AgreeUpTo blockSize r r' i) :
    Collision blockSize r r' i ∨ Collision blockSize r' r i := by
  have halike (h0 : metIds blockSize r 0 = metIds blockSize r' 0) : ReadAlike blockSize r r' i := by
    refine ⟨hl, fun j hle => ?_⟩
    rcases Nat.eq_zero_or_pos j with rfl | hj
    · exact h0
    · exact later j hj hle
  have hitems (h0 : metIds blockSize r 0 = metIds blockSize r' 0)
      (hs : r.cacheSalt = r'.cacheSalt) : Collision blockSize r r' i := by
    obtain ⟨hi, hi'⟩ : ShowsItems blockSize r i ∧ ShowsItems blockSize r' i := by
      by_contra hshow
      exact hhidden ⟨hshare, halike h0, hs, hshow⟩
    have hids : ¬ overlappingIds r ((i + 1) * blockSize) =
        overlappingIds r' ((i + 1) * blockSize) := fun hids => hn ⟨hshare.2.2, hl, hs, hids⟩
    rw [(halike h0).overlappingIds_eq_iff hi hi'] at hids
    push Not at hids
    obtain ⟨p, hp, hcount⟩ := hids
    exact .itemsAcross (halike h0) hs hi hi' p hp hcount
  have hsymm (h : ReadAlike blockSize r r' i) : ReadAlike blockSize r' r i :=
    ⟨h.lora.symm, fun j hle => (h.ids j hle).symm⟩
  by_cases hs : saltWords r = [] <;> by_cases hs' : saltWords r' = []
  · rw [hs, hs', List.append_nil, List.append_nil] at first
    rcases (saltWords_eq_nil_iff r).mp hs with hq | hq <;>
      rcases (saltWords_eq_nil_iff r').mp hs' with hq' | hq'
    · exact Or.inl (hitems first (hq.trans hq'.symm))
    · exact Or.inr (.emptySalt (hsymm (halike first)) hq' hq)
    · exact Or.inl (.emptySalt (halike first) hq hq')
    · exact Or.inl (hitems first (hq.trans hq'.symm))
  · rw [hs, List.append_nil] at first
    exact Or.inr (.saltAsItem hl.symm hs' hs first.symm fun j hj hle => (later j hj hle).symm)
  · rw [hs', List.append_nil] at first
    exact Or.inl (.saltAsItem hl hs hs' first later)
  · obtain ⟨salt, hq, hk⟩ := saltWords_of_ne_nil hs
    obtain ⟨salt', hq', hk'⟩ := saltWords_of_ne_nil hs'
    rw [hk, hk'] at first
    obtain ⟨h0, hsalt⟩ := List.append_inj' first rfl
    exact Or.inl (hitems h0 (by rw [hq, hq', List.singleton_inj.mp hsalt]))

/-- Requests with equal key lists agree unless they collide or one hides an item. -/
private theorem collision_of_flatKeys_eq {blockSize : Nat} (hb : 0 < blockSize) (env : HashEnv H)
    (hr : r.promptEmbeds = none) (hr' : r'.promptEmbeds = none) {i : Nat}
    (hshare : SharePrefix blockSize r r' i)
    (hkeys : ∀ j, j ≤ i → flatKeys env blockSize r j = flatKeys env blockSize r' j)
    (hhidden : ¬ HiddenAt blockSize r r' i) (hn : ¬ AgreeUpTo blockSize r r' i) :
    Collision blockSize r r' i ∨ Collision blockSize r' r i := by
  obtain ⟨first, later⟩ := (flatKeys_eq_iff env hb hr hr' i).mp hkeys
  simp only [loraWords] at first later
  cases hl : r.loraRequest with
  | none =>
    cases hl' : r'.loraRequest with
    | none =>
      simp only [hl, hl', Option.map_none, Option.toList_none, List.nil_append] at first later
      exact collision_of_same_lora hshare (by rw [hl, hl']) first later hhidden hn
    | some lora =>
      simp only [hl, hl', Option.map_none, Option.toList_none, List.nil_append, Option.map_some,
        Option.toList_some, List.singleton_append] at first later
      exact Or.inr (.loraAsKey lora hl' hl first.symm fun j hj hle => (later j hj hle).symm)
  | some lora =>
    cases hl' : r'.loraRequest with
    | none =>
      simp only [hl, hl', Option.map_none, Option.toList_none, List.nil_append, Option.map_some,
        Option.toList_some, List.singleton_append] at first later
      exact Or.inl (.loraAsKey lora hl hl' first later)
    | some lora' =>
      simp only [hl, hl', Option.map_some, Option.toList_some, List.singleton_append,
        List.cons.injEq] at first later
      exact collision_of_same_lora hshare (by rw [hl, hl', Option.map_some, Option.map_some, first.1])
        first.2 (fun j hj hle => (later j hj hle).2) hhidden hn

/-- A hidden item reaches the defect: under another identifier it leaves all hashes as they
are. -/
theorem not_separatedAt_rename {env : HashEnv H} (he : env.CollisionFree) {blockSize : Nat}
    (hb : 0 < blockSize) {r : Request H} (hr : r.promptEmbeds = none) {i k : Nat}
    (hlen : (i + 1) * blockSize ≤ r.numTokens) (hk : HasTokens r ((i + 1) * blockSize) k)
    (hhidden : k ∉ metUpTo blockSize r i) {identifier : String}
    (hne : identifier ≠ identifierAt r k) :
    ¬ SeparatedAt env blockSize r (r.rename k identifier) i := by
  intro hsep
  have halike : ReadAlike blockSize r (r.rename k identifier) i := by
    refine ⟨rfl, fun j hle => (metIds_rename (fun hj => hhidden ?_) identifier).symm⟩
    exact List.mem_flatMap.mpr ⟨j, List.mem_range.mpr (Nat.lt_succ_of_le hle), hj⟩
  have hrename : (r.rename k identifier).promptEmbeds = none := hr
  obtain ⟨h, hh, hh'⟩ := (scratchHashes_eq_iff he hb r (r.rename k identifier) i).mpr
    ⟨⟨hlen, hlen, rfl⟩, (flatKeys_eq_iff env hb hr hrename i).mpr (halike.words_eq rfl)⟩
  exact overlappingIds_rename_ne hk hne (hsep h hh hh').ids.symm

/-! ## An adapter against a salt -/

/-- A request on two tokens under the adapter `x`. -/
def underLora : Request FreeDigest :=
  { requestId := 0, allTokenIds := [1, 2], loraRequest := some ⟨"x", 1⟩ }

/-- The same tokens without an adapter, salted with the adapter's name. -/
def underSalt : Request FreeDigest :=
  { requestId := 1, allTokenIds := [1, 2], cacheSalt := some "x" }

/-- One image across a block boundary has the hashes of two images of its identifier. -/
example :
    let one : Request FreeDigest :=
      { requestId := 0, allTokenIds := [1, 1, 1, 1], mmFeatures := [⟨"a", ⟨1, 2, none⟩⟩] }
    let two := { one with mmFeatures := [⟨"a", ⟨1, 1, none⟩⟩, ⟨"a", ⟨2, 1, none⟩⟩] }
    scratchHashes freeEnv 2 one = scratchHashes freeEnv 2 two ∧
      overlappingIds one 4 ≠ overlappingIds two 4 := by decide

/-- A salted request with an image under an adapter. -/
def withImage (last : TokenId) : Request FreeDigest :=
  { requestId := 0, allTokenIds := [1, 2, last], loraRequest := some ⟨"x", 1⟩
    cacheSalt := some "s", mmFeatures := [⟨"a", ⟨1, 1, none⟩⟩] }

end Vllm
