import TigerBeetle.SetAssociativeCache

namespace TigerBeetle

abbrev HashMap (K V : Type) := AList fun _ : K => V

inductive ScopeCloseMode
  | persist
  | discard
  deriving DecidableEq, Repr

-- How an upsert of a scope is undone.
inductive RollbackLogAction (K V : Type)
  | restore (value : V)
  | restoreTombstone (key : K)
  | remove (key : K)

structure CacheMapOptions where
  cacheValueCountMax : Nat
  stashValueCountMax : Nat
  scopeValueCountMax : Nat

-- A cache on top of a hash map: what is evicted from the cache is kept in the stash.
structure CacheMap (K V : Type) where
  cache : Option (SetAssociativeCache V)
  stash : HashMap K V
  scopeIsActive : Bool
  scopeRollbackLog : List (RollbackLogAction K V)
  options : CacheMapOptions

namespace CacheMap

variable {K V : Type}

def new [Inhabited V] (options : CacheMapOptions) : CacheMap K V where
  cache :=
    if options.cacheValueCountMax ≠ 0 then some (.new options.cacheValueCountMax) else none
  stash := ∅
  scopeIsActive := false
  scopeRollbackLog := []
  options := options

variable [DecidableEq K] [CacheMapSpec K V] (map : CacheMap K V)

def stashGet (key : K) : Option V :=
  (map.stash.lookup key).filter fun value => !CacheMapSpec.tombstone value

def get (key : K) : Option V × CacheMap K V :=
  match map.cache with
  | none => (map.stashGet key, map)
  | some cache =>
    let (value, cache) := cache.get key
    (value <|> map.stashGet key, { map with cache := some cache })

def stashUpsert (value : V) : Result (Option V × CacheMap K V) := do
  let old := map.stash.lookup (keyFromValue value)
  let stash := map.stash.insert (keyFromValue value) value
  assert (stash.entries.length ≤ map.options.stashValueCountMax)
    "self.stash.len() <= self.options.stash_value_count_max"
  return (old, { map with stash })

def stashRemove (key : K) : Result (Option V × CacheMap K V) := do
  assert (map.stash.entries.length ≤ map.options.stashValueCountMax)
    "self.stash.len() <= self.options.stash_value_count_max"
  return (map.stash.lookup key, { map with stash := map.stash.erase key })

def fetchUpsert (value : V) : Result (Option V × CacheMap K V) := do
  match map.cache with
  | none => map.stashUpsert value
  | some cache => do
    let key := keyFromValue value
    let result ← cache.upsert value
    let map := { map with cache := some result.cache }
    match result.evicted, result.updated with
    | some evicted, .update => do
      assert (keyFromValue evicted = key) "S::key_from_value(&evicted) == key"
      assert ((map.stash.lookup key).all CacheMapSpec.tombstone) "stash.is_none_or(S::tombstone)"
      return (some evicted, map)
    | some evicted, .insert => do
      assert (keyFromValue evicted ≠ key) "S::key_from_value(&evicted) != key"
      let (stashUpdated, map) ← map.stashUpsert evicted
      assert (stashUpdated.all CacheMapSpec.tombstone)
        "stash_updated.is_none_or(S::tombstone)"
      map.stashRemove key
    | none, updated => do
      assert (updated = .insert) "result.updated == UpdateOrInsert::Insert"
      map.stashRemove key

def append (action : RollbackLogAction K V) : Result (CacheMap K V) := do
  assert (map.scopeRollbackLog.length < map.options.scopeValueCountMax)
    "scope rollback log overflow"
  return { map with scopeRollbackLog := map.scopeRollbackLog ++ [action] }

def upsert (value : V) : Result (CacheMap K V) := do
  let (updated, map) ← map.fetchUpsert value
  if map.scopeIsActive then
    match updated with
    | none => map.append (.remove (keyFromValue value))
    | some old =>
      if CacheMapSpec.tombstone old then
        abort "VERIFY"
      else
        map.append (.restore old)
  else
    return map

def scopeOpen : Result (CacheMap K V) := do
  assert (!map.scopeIsActive) "!self.scope_is_active"
  assert (map.scopeRollbackLog.length = 0) "self.scope_rollback_log.len() == 0"
  return { map with scopeIsActive := true }

def replay (action : RollbackLogAction K V) : Result (CacheMap K V) := do
  match action with
  | .restore value => do
    assert (!CacheMapSpec.tombstone value) "!S::tombstone(&rollback_value)"
    map.upsert value
  | .restoreTombstone _ => abort "restore_tombstone requires verify"
  | .remove key => do
    let (removed, cache) := match map.cache with
      | none => (none, none)
      | some cache => let (value, cache) := cache.remove key; (value, some cache)
    let (stashRemoved, map) ← { map with cache }.stashRemove key
    match stashRemoved with
    | some value =>
      assert (!removed.isSome || CacheMapSpec.tombstone value)
        "!cache_removed || S::tombstone(&stash_value)"
    | none => assert removed.isSome "cache_removed"
    return map

def replayAll : List (RollbackLogAction K V) → CacheMap K V → Result (CacheMap K V)
  | [], map => return map
  | action :: actions, map => do replayAll actions (← map.replay action)

def scopeClose (mode : ScopeCloseMode) : Result (CacheMap K V) := do
  assert map.scopeIsActive "self.scope_is_active"
  let map := { map with scopeIsActive := false }
  match mode with
  | .persist => return { map with scopeRollbackLog := [] }
  | .discard => do
    let actions := map.scopeRollbackLog
    let map ← replayAll actions.reverse { map with scopeRollbackLog := [] }
    return { map with scopeRollbackLog := [] }

def compact : Result (CacheMap K V) := do
  assert (!map.scopeIsActive) "!self.scope_is_active"
  assert (map.scopeRollbackLog.length = 0) "self.scope_rollback_log.len() == 0"
  assert (map.stash.entries.length ≤ map.options.stashValueCountMax)
    "self.stash.len() <= self.options.stash_value_count_max"
  return { map with stash := ∅ }

end CacheMap

end TigerBeetle
