import Nufw.Lib.Table
import Nufw.Nuauth.Connections

/-!
# The cache manager

`cache.c`: one thread owns a hash of entries and answers the messages of its clients. A client
that asks for a key gets the datas of the entry, or is told to look for them itself
(`null_message`); until it has sent its INSERT the entry is *refreshing*, and the others that ask
for the key wait in `local_queue`.

Datas are pointers, compared by address, and `NULL` is `none`. A `NULL` that is to be handed out
from an entry is encoded as `null_queue_datas`, since pushing `NULL` on a `GAsyncQueue` delivers
nothing. The hash is the list of its entries; a lookup compares the stored key with the given one,
in this order.

What the manager hands out is returned with its new state. `freed` lists the datas it has freed,
and `faults` what should not happen: a failed assertion, an INSERT that nobody waits for, and a
read of an entry without datas.
-/

namespace Nufw

/-! ### Data -/

/-- The functions of a `cache_class_t` for its keys. -/
structure CacheClass (κ : Type) where
  hashKey : κ → UInt32
  equalKey : κ → κ → Bool
  duplicateKey : κ → κ

/-- `cache_entry_content_t`. -/
structure CacheEntryContent where
  datas : Option ℕ
  usage : ℕ

/-- `cache_entry_t`, with the key it is stored under. -/
structure CacheEntry (κ : Type) where
  key : κ
  datas : List CacheEntryContent
  createTimestamp : Int
  refreshTimestamp : Int
  refreshing : Bool

/-- A message of type `GET_MESSAGE`. The number stands for its place in memory, and so for the
reply queue of the thread that waits for it. -/
structure GetMessage (κ : Type) where
  key : κ
  id : ℕ
  deriving DecidableEq

/-- `struct cache_message`. -/
inductive CacheMessage (κ : Type) where
  | get (message : GetMessage κ)
  | insert (key : κ) (datas : Option ℕ)
  | free (key : κ) (datas : ℕ)
  | refresh
  | reset

/-- What is pushed on a reply queue. -/
inductive CacheReply where
  | nullMessage
  | nullQueueDatas
  | datas (datas : ℕ)
  deriving DecidableEq

/-- What should not happen to the manager. -/
inductive CacheFault where
  /-- `g_assert (entry != NULL)`. -/
  | noEntry
  /-- "Error when trying to refresh cache entry (INSERT_MESSAGE)". -/
  | notRefreshing
  /-- The first element of an empty list is read. -/
  | noDatas
  deriving DecidableEq

/-- What the manager owns. -/
structure Cache (κ : Type) where
  hash : List (CacheEntry κ)
  localQueue : List (GetMessage κ)
  /-- **Ghost**: the datas freed so far. -/
  freed : List ℕ
  faults : List CacheFault

/-- A message with the reply that has been delivered for it. -/
abbrev Delivery (κ : Type) := GetMessage κ × CacheReply

/-! ### The functions -/

section

variable {κ : Type} (this : CacheClass κ)

/-- The entry is the one the hash has for the key. -/
def CacheClass.holds (key : κ) (entry : CacheEntry κ) : Bool :=
  this.hashKey entry.key = this.hashKey key ∧ this.equalKey entry.key key

/-- `g_async_queue_push` of a pointer: `NULL` is refused. -/
def pushDatas (message : GetMessage κ) (datas : Option ℕ) : List (Delivery κ) :=
  (datas.map fun d ↦ (message, CacheReply.datas d)).toList

/-- `cache_entry_content_compare` returns zero: the difference of the pointers is an `int`. -/
def cacheEntryContentCompare (content : CacheEntryContent) (datas : ℕ) : Bool :=
  datas % 2 ^ 32 = content.datas.getD 0 % 2 ^ 32

/-- `cache_entry_is_old`. -/
def cacheEntryIsOld (now : Int) (entry : CacheEntry κ) : Bool :=
  if entry.refreshing ∨ now ≤ entry.refreshTimestamp then false
  else
    match entry.datas with
    | [data] => data.usage = 0
    | _ => false

/-- `cache_insert`. -/
def cacheInsert (conf : Params) (now : Int) (message : GetMessage κ) (cache : Cache κ) :
    Cache κ × List (Delivery κ) :=
  let cacheElt : CacheEntry κ :=
    { key := this.duplicateKey message.key
      datas := []
      createTimestamp := now
      refreshTimestamp := now + conf.datasPersistance
      refreshing := true }
  ({ cache with hash := cacheElt :: cache.hash }, [(message, .nullMessage)])

/-- The pointers of some contents. -/
def contentPointers (contents : List CacheEntryContent) : List ℕ :=
  contents.filterMap CacheEntryContent.datas

/-- `cache_get`. -/
def cacheGet (now : Int) (entry : CacheEntry κ) (message : GetMessage κ) (cache : Cache κ) :
    Cache κ × List (Delivery κ) :=
  let update (entry : CacheEntry κ) : List (CacheEntry κ) :=
    updateFirst (this.holds message.key) (fun _ ↦ entry) cache.hash
  if entry.refreshing then
    ({ cache with localQueue := cache.localQueue ++ [message] }, [])
  else if entry.refreshTimestamp < now then
    -- delete what is unused, and ask for a refresh
    ({ cache with
        hash := update { entry with
          datas := entry.datas.filter (·.usage ≠ 0)
          refreshing := true }
        freed := cache.freed ++ contentPointers (entry.datas.filter (·.usage = 0)) },
      [(message, .nullMessage)])
  else
    match entry.datas with
    | [] => ({ cache with faults := cache.faults ++ [.noDatas] }, [])
    | item :: list =>
      ({ cache with
          hash := update { entry with datas := { item with usage := item.usage + 1 } :: list } },
        [(message, match item.datas with
          | some d => .datas d
          | none => .nullQueueDatas)])

/-- The list of an entry after `cache_message_destroy`, and what it frees. Nothing but the usage of
the most recent element changes; the other ones go when they are not used any more. -/
def cacheMessageDestroy (datas : ℕ) : List CacheEntryContent → List CacheEntryContent × List ℕ
  | [] => ([], [])
  | content :: list =>
    if cacheEntryContentCompare content datas then
      ({ content with usage := content.usage - 1 } :: list, [])
    else
      match list.find? (cacheEntryContentCompare · datas) with
      | none => (content :: list, [])
      | some found =>
        if 1 < found.usage then
          (content :: updateFirst (cacheEntryContentCompare · datas)
            (fun c ↦ { c with usage := c.usage - 1 }) list, [])
        else (content :: list.eraseP (cacheEntryContentCompare · datas), found.datas.toList)

/-- `cache_refresh`. -/
def cacheRefresh (conf : Params) (now : Int) (entry : CacheEntry κ) (key : κ) (datas : Option ℕ)
    (cache : Cache κ) : Cache κ × List (Delivery κ) :=
  let waiting := cache.localQueue.filter fun g ↦ this.equalKey key g.key
  let elt : CacheEntryContent := ⟨datas, 1 + waiting.length⟩
  ({ cache with
      hash := updateFirst (this.holds key) (fun _ ↦ { entry with
        datas := elt :: entry.datas
        refreshing := false
        refreshTimestamp := now + conf.datasPersistance }) cache.hash
      localQueue := cache.localQueue.filter fun g ↦ !this.equalKey key g.key },
    waiting.flatMap fun g ↦ pushDatas g datas)

/-- `cache_manager`: one turn of its loop. The clock is read once, except for a REFRESH, where it is
read for each entry. -/
def cacheManager (conf : Params) (now : Int) (clock : CacheEntry κ → Int) (cache : Cache κ) :
    CacheMessage κ → Cache κ × List (Delivery κ)
  | .get message =>
    match cache.hash.find? (this.holds message.key) with
    | none => cacheInsert this conf now message cache
    | some entry => cacheGet this now entry message cache
  | .insert key datas =>
    match cache.hash.find? (this.holds key) with
    | none => ({ cache with faults := cache.faults ++ [.noEntry] }, [])
    | some entry =>
      if entry.refreshing then cacheRefresh this conf now entry key datas cache
      else ({ cache with faults := cache.faults ++ [.notRefreshing] }, [])
  | .free key datas =>
    match cache.hash.find? (this.holds key) with
    | none => (cache, [])
    | some entry =>
      let (list, freed) := cacheMessageDestroy datas entry.datas
      ({ cache with
          hash := updateFirst (this.holds key) (fun _ ↦ { entry with datas := list }) cache.hash
          freed := cache.freed ++ freed }, [])
  | .refresh =>
    let old (entry : CacheEntry κ) : Bool := cacheEntryIsOld (clock entry) entry
    ({ cache with
        hash := cache.hash.filter fun e ↦ !old e
        freed := cache.freed ++
          (cache.hash.filter old).flatMap fun e ↦ contentPointers e.datas }, [])
  | .reset =>
    ({ cache with hash := cache.hash.map fun e ↦ { e with refreshTimestamp := 0 } }, [])

end

end Nufw
