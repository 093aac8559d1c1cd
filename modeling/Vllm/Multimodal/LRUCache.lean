import Mathlib.Algebra.Order.Group.Defs
import Mathlib.Data.Finset.Basic
import Vllm.Library.DictOrder

/-!
# The cache of recently used items

The cache over a base class that keeps the values, their sizes and the order of use. The base class
calls `popitem` of the cache as long as a new value does not fit; that loop, and the one of `clear`,
run for as many turns as they are given.
-/

namespace Vllm.Multimodal

/-- What the cache raises. -/
inductive CacheError where
  /-- The value is larger than the cache. -/
  | valueTooLarge
  /-- All items are pinned, cannot remove oldest from the cache. -/
  | allPinned
  /-- Cannot pin a key that is not in the cache. -/
  | notInCache
  | stopIteration
  deriving DecidableEq, Repr

/-- What the cache is made with, and how the base class decides that a size fits: by the size that
is stored under the key, the new size and the current size of the cache. -/
structure CacheSettings (V N : Type) where
  maxsize : N
  getsizeof : V → N
  fits : Option N → N → N → Bool

/-- The decision of the base class: what replaces a value that is not smaller fits, and else what
does not bring the current size above the maximum. -/
def CacheSettings.ofMaxsize {V N : Type} [Add N] [LE N] [DecidableLE N] (maxsize : N)
    (getsizeof : V → N) : CacheSettings V N where
  maxsize := maxsize
  getsizeof := getsizeof
  fits old size currsize :=
    old.any (fun stored => decide (size ≤ stored)) || decide (currsize + size ≤ maxsize)

/-- `CacheInfo`. -/
structure CacheInfo where
  hits : Nat
  total : Nat
  deriving DecidableEq, Repr

/-- `LRUCache`: values with their sizes, and the keys in the order of their use. -/
structure LRUCache (K V N : Type) where
  data : Dict K (V × N)
  order : List K
  currsize : N
  pinnedItems : Finset K
  hits : Nat
  total : Nat
  lastInfo : CacheInfo

namespace LRUCache

variable {K V N : Type} [DecidableEq K]

/-- A cache without items. -/
def init (K V N : Type) [DecidableEq K] [Zero N] : LRUCache K V N where
  data := Dict.empty
  order := []
  currsize := 0
  pinnedItems := ∅
  hits := 0
  total := 0
  lastInfo := ⟨0, 0⟩

/-- `key in self`. -/
def contains (cache : LRUCache K V N) (key : K) : Bool := cache.data.contains key

/-- `touch`: a key is moved to the end of the order, or entered there. -/
def touch (cache : LRUCache K V N) (key : K) : LRUCache K V N :=
  { cache with order := cache.order.filter (· ≠ key) ++ [key] }

/-- `__getitem__` without the statistics. A missing key is a key error. -/
def getItem (cache : LRUCache K V N) (key : K) : Option (V × LRUCache K V N) :=
  match cache.data.get? key with
  | none => none
  | some (value, _) => some (value, cache.touch key)

/-- `get`. -/
def get (cache : LRUCache K V N) (key : K) (default : Option V) : Option V × LRUCache K V N :=
  match cache.getItem key with
  | some (value, cache) =>
    (some value, { cache with hits := cache.hits + 1, total := cache.total + 1 })
  | none => (default, { cache with total := cache.total + 1 })

/-- `pin`. -/
def pin (cache : LRUCache K V N) (key : K) : Except CacheError Unit × LRUCache K V N :=
  if cache.contains key then
    (.ok (), { cache with pinnedItems := insert key cache.pinnedItems })
  else (.error .notInCache, cache)

variable [AddCommGroup N]

/-- `__delitem__`, for a key with a value. -/
def delItem (cache : LRUCache K V N) (key : K) : LRUCache K V N :=
  match cache.getItem key with
  | none => cache
  | some (_, cache) =>
    match cache.data.get? key with
    | none => cache
    | some (_, size) =>
      { cache with
        data := cache.data.erase key
        order := cache.order.filter (· ≠ key)
        currsize := cache.currsize - size
        pinnedItems := cache.pinnedItems.erase key }

/-- `pop`. -/
def pop (cache : LRUCache K V N) (key : K) (default : Option V) : Option V × LRUCache K V N :=
  match cache.getItem key with
  | none => (default, cache)
  | some (value, cache) => (some value, cache.delItem key)

/-- `popitem`. -/
def popitem (cache : LRUCache K V N) (removePinned : Bool) :
    Except CacheError (K × Option V) × LRUCache K V N :=
  if removePinned then
    match cache.order.head? with
    | none => (.error .stopIteration, cache)
    | some lruKey =>
      let (value, cache) := cache.pop lruKey none
      (.ok (lruKey, value), cache)
  else
    match cache.order.find? (· ∉ cache.pinnedItems) with
    | none => (.error .allPinned, cache)
    | some lruKey =>
      let (value, cache) := cache.pop lruKey none
      (.ok (lruKey, value), cache)

/-- `remove_oldest`. -/
def removeOldest (cache : LRUCache K V N) (removePinned : Bool) :
    Except CacheError Unit × LRUCache K V N :=
  if cache.data.size = 0 then (.ok (), cache)
  else
    match cache.popitem removePinned with
    | (.error e, cache) => (.error e, cache)
    | (.ok _, cache) => (.ok (), cache)

/-- The loop of `clear`. -/
def removeAll : Nat → LRUCache K V N → Option (Except CacheError Unit × LRUCache K V N)
  | 0, _ => none
  | turns + 1, cache =>
    if cache.data.size = 0 then some (.ok (), cache)
    else
      match cache.removeOldest true with
      | (.error e, cache) => some (.error e, cache)
      | (.ok _, cache) => removeAll turns cache

/-- `clear`. -/
def clear (turns : Nat) (cache : LRUCache K V N) :
    Option (Except CacheError Unit × LRUCache K V N) :=
  match removeAll turns cache with
  | some (.ok _, cache) => some (.ok (), { cache with hits := 0, total := 0, lastInfo := ⟨0, 0⟩ })
  | result => result

variable [LinearOrder N]

/-- The size under a key. -/
def sizeAt (cache : LRUCache K V N) (key : K) : Option N := (cache.data.get? key).map Prod.snd

/-- The loop of the base class before a value is stored. -/
def makeRoom (settings : CacheSettings V N) (key : K) (size : N) :
    Nat → LRUCache K V N → Option (Except CacheError Unit × LRUCache K V N)
  | 0, _ => none
  | turns + 1, cache =>
    if settings.fits (cache.sizeAt key) size cache.currsize then some (.ok (), cache)
    else
      match cache.popitem false with
      | (.error e, cache) => some (.error e, cache)
      | (.ok _, cache) => makeRoom settings key size turns cache

/-- A value is stored. -/
def store (cache : LRUCache K V N) (key : K) (value : V) (size : N) : LRUCache K V N :=
  { cache with
    data := cache.data.insert key (value, size)
    currsize := cache.currsize - (cache.sizeAt key).getD 0 + size }

/-- `put`, which is `__setitem__` of the base class. -/
def put (settings : CacheSettings V N) (turns : Nat) (cache : LRUCache K V N) (key : K)
    (value : V) : Option (Except CacheError Unit × LRUCache K V N) :=
  if settings.maxsize < settings.getsizeof value then some (.error .valueTooLarge, cache)
  else
    match makeRoom settings key (settings.getsizeof value) turns cache with
    | some (.ok _, cache) =>
      some (.ok (), (cache.store key value (settings.getsizeof value)).touch key)
    | result => result

end LRUCache

/-- A call of the cache. -/
inductive CacheCall (K V : Type) where
  | put (key : K) (value : V)
  | get (key : K) (default : Option V)
  | touch (key : K)
  | pop (key : K) (default : Option V)
  | pin (key : K)
  | removeOldest (removePinned : Bool)
  | clear

namespace LRUCache

variable {K V N : Type} [DecidableEq K] [AddCommGroup N] [LinearOrder N]

/-- What a call raises and leaves, if its loop ends in as many turns. -/
def call (settings : CacheSettings V N) (turns : Nat) (cache : LRUCache K V N) :
    CacheCall K V → Option (Except CacheError Unit × LRUCache K V N)
  | .put key value => put settings turns cache key value
  | .get key default => some (.ok (), (cache.get key default).2)
  | .touch key => some (.ok (), cache.touch key)
  | .pop key default => some (.ok (), (cache.pop key default).2)
  | .pin key => some (cache.pin key)
  | .removeOldest removePinned => some (cache.removeOldest removePinned)
  | .clear => clear turns cache

end LRUCache

end Vllm.Multimodal
