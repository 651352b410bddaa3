import Mathlib
import OffchainStorage.Lib.AListFold

/-!
# Storage notifications

`StorageNotifications` keeps the subscribers of storage changes in five maps:
the top level wildcard listeners, the listeners of each top level key, for
each child storage key its listeners by key and its wildcard listeners, and
the sinks, which hold each subscriber's sender with the filters it asked
for.  `trigger` collects the subscribers of a block's changes from the first
four maps and sends each one the changes through its sink, and `iter` of the
change set yields what the subscriber's filters let through; a subscriber
whose receiver is gone is removed by walking the filters in its sink.

The sink keeps the child filters as a map, so a child storage key named twice
in one `listen` keeps only its last key filter there, while both were
registered.  Removal then leaves the subscriber in the listeners of the first
filter, and the next change under that key panics in `trigger`
(`repeated_child_key_breaks_registry`).
-/

namespace OffchainStorage.Notifications

/-- `StorageKey`, the bytes of a key. -/
abbrev StorageKey := List UInt8

/-- `StorageData`, the bytes of a value. -/
abbrev StorageData := List UInt8

/-- `SubscriberId`, a `u64`. -/
abbrev SubscriberId := Nat

/-- `Option<HashSet<StorageKey>>`: the keys a subscriber listens to, `none`
for all of them. -/
abbrev KeyFilter := Option (List StorageKey)

/-- `FnvHashSet<SubscriberId>`, as a list without repeats. -/
abbrev Listeners := List SubscriberId

/-- `HashMap<StorageKey, FnvHashSet<SubscriberId>>`. -/
abbrev ListenerMap := AList fun _ : StorageKey => Listeners

/-- `HashMap<StorageKey, Option<HashSet<StorageKey>>>`, the key filter of
each child storage key. -/
abbrev ChildFilters := AList fun _ : StorageKey => KeyFilter

/-- A change of a key: the new value, `none` for a removal. -/
abbrev Change := StorageKey × Option StorageData

/-- `StorageChangeSet`. -/
structure StorageChangeSet where
  changes : List Change
  childChanges : List (StorageKey × List Change)
  filter : KeyFilter
  childFilters : Option ChildFilters

/-- The match on a filter in `iter`. -/
def admits (filter : KeyFilter) (key : StorageKey) : Bool :=
  match filter with
  | some filter => filter.contains key
  | none => true

/-- `StorageChangeSet::iter`: the top level changes the filter lets through,
then the changes of each child storage key the child filters name. -/
def StorageChangeSet.iter (changeSet : StorageChangeSet) : List (Option StorageKey × Change) :=
  let top := (changeSet.changes.filter fun change => admits changeSet.filter change.1).map fun change => (none, change)
  let children := changeSet.childChanges.flatMap fun (storageKey, changes) =>
    match changeSet.childFilters.bind (·.lookup storageKey) with
    | some filter => (changes.filter fun change => admits filter change.1).map fun change => (some storageKey, change)
    | none => []
  top ++ children

/-- The entry of a subscriber in `sinks`: its sender, `connected` until the
receiver is dropped, and the filters `listen` built. -/
structure Sink where
  connected : Bool
  filter : KeyFilter
  childFilters : Option ChildFilters

/-- `StorageNotifications`. -/
structure StorageNotifications where
  nextId : SubscriberId
  wildcardListeners : Listeners
  listeners : ListenerMap
  childListeners : AList fun _ : StorageKey => ListenerMap × Listeners
  sinks : AList fun _ : SubscriberId => Sink

namespace StorageNotifications

/-- `Default::default()`. -/
def default : StorageNotifications :=
  ⟨0, [], ∅, ∅, ∅⟩

/-- `HashSet::extend`. -/
def extend (subscribers more : Listeners) : Listeners :=
  more.foldl (fun subscribers subscriber => subscribers.insert subscriber) subscribers

/-- `listen_from`: the subscriber becomes a listener of each key of the
filter, or a wildcard listener; the filter is returned as a set. -/
def listenFrom (currentId : SubscriberId) (filterKeys : Option (List StorageKey)) (listeners : ListenerMap)
    (wildcards : Listeners) : (ListenerMap × Listeners) × KeyFilter :=
  match filterKeys with
  | none => ((listeners, wildcards.insert currentId), none)
  | some keys =>
    ((keys.foldl (fun listeners key => listeners.upsert key fun set => (set.getD []).insert currentId) listeners,
        wildcards),
      some (keys.foldl (fun collected key => collected.insert key) []))

/-- The child part of `listen`: each child storage key's entry is created if
absent and the subscriber listens there; the filters are collected into a map,
a later entry of a key replacing an earlier one. -/
def listenChildren (currentId : SubscriberId) (childListeners : AList fun _ : StorageKey => ListenerMap × Listeners)
    (filterChildKeys : List (StorageKey × Option (List StorageKey))) :
    (AList fun _ : StorageKey => ListenerMap × Listeners) × ChildFilters :=
  filterChildKeys.foldl
    (fun (childListeners, collected) (childKey, keys) =>
      let entry := (childListeners.lookup childKey).getD (∅, [])
      let (listening, filter) := listenFrom currentId keys entry.1 entry.2
      (childListeners.insert childKey listening, collected.insert childKey filter))
    (childListeners, ∅)

/-- `listen(filter_keys, filter_child_keys)`: the new subscriber's id stands
for the receiver it returns. -/
def listen (notifications : StorageNotifications) (filterKeys : Option (List StorageKey))
    (filterChildKeys : Option (List (StorageKey × Option (List StorageKey)))) : StorageNotifications × SubscriberId :=
  let currentId := notifications.nextId + 1
  let ((listeners, wildcards), keys) :=
    listenFrom currentId filterKeys notifications.listeners notifications.wildcardListeners
  let (childListeners, childKeys) : (AList fun _ : StorageKey => ListenerMap × Listeners) × Option ChildFilters :=
    match filterChildKeys with
    | none => (notifications.childListeners, none)
    | some filterChildKeys =>
      let (childListeners, collected) := listenChildren currentId notifications.childListeners filterChildKeys
      (childListeners, some collected)
  (⟨currentId, wildcards, listeners, childListeners, notifications.sinks.insert currentId ⟨true, keys, childKeys⟩⟩,
    currentId)

/-- The receiver of a subscriber is dropped: its sender's sends fail from now on. -/
def dropReceiver (notifications : StorageNotifications) (subscriber : SubscriberId) : StorageNotifications :=
  match notifications.sinks.lookup subscriber with
  | some sink => { notifications with sinks := notifications.sinks.insert subscriber { sink with connected := false } }
  | none => notifications

/-- `remove_subscriber_from`: the subscriber leaves the listeners of each key
of the filter, a key left without listeners is removed; or it leaves the
wildcards. -/
def removeSubscriberFrom (subscriber : SubscriberId) (filters : KeyFilter) (listeners : ListenerMap)
    (wildcards : Listeners) : ListenerMap × Listeners :=
  match filters with
  | none => (listeners, wildcards.erase subscriber)
  | some filters =>
    (filters.foldl
      (fun listeners key =>
        match listeners.lookup key with
        | some set =>
          if (set.erase subscriber).isEmpty then listeners.erase key else listeners.insert key (set.erase subscriber)
        | none => listeners)
      listeners,
      wildcards)

/-- The child part of `remove_subscriber`, over the child filters of the sink. -/
def removeChildren (subscriber : SubscriberId) (childListeners : AList fun _ : StorageKey => ListenerMap × Listeners)
    (childFilters : ChildFilters) : AList fun _ : StorageKey => ListenerMap × Listeners :=
  childFilters.entries.foldl
    (fun childListeners entry =>
      match childListeners.lookup entry.1 with
      | some (listeners, wildcards) =>
        let (listeners, wildcards) := removeSubscriberFrom subscriber entry.2 listeners wildcards
        if listeners.isEmpty && wildcards.isEmpty then childListeners.erase entry.1
        else childListeners.insert entry.1 (listeners, wildcards)
      | none => childListeners)
    childListeners

/-- `remove_subscriber`: the sink is removed and the filters stored in it say
which listener sets the subscriber leaves. -/
def removeSubscriber (notifications : StorageNotifications) (subscriber : SubscriberId) : StorageNotifications :=
  match notifications.sinks.lookup subscriber with
  | none => notifications
  | some sink =>
    let (listeners, wildcards) :=
      removeSubscriberFrom subscriber sink.filter notifications.listeners notifications.wildcardListeners
    let childListeners := match sink.childFilters with
      | some childFilters => removeChildren subscriber notifications.childListeners childFilters
      | none => notifications.childListeners
    ⟨notifications.nextId, wildcards, listeners, childListeners, notifications.sinks.erase subscriber⟩

/-- The loop of `trigger` over the top level changes: the subscribers of the
changed keys, and the changes someone listens to. -/
def collectChanges (notifications : StorageNotifications) (hasWildcard : Bool) (subscribers : Listeners)
    (changeset : List Change) : Listeners × List Change :=
  changeset.foldl
    (fun (subscribers, changes) (key, value) =>
      let listeners := notifications.listeners.lookup key
      let subscribers := match listeners with
        | some listeners => extend subscribers listeners
        | none => subscribers
      (subscribers, if hasWildcard || listeners.isSome then changes ++ [(key, value)] else changes))
    (subscribers, [])

/-- The inner loop over the changes of one child storage key with listeners. -/
def collectChildKeyChanges (childEntries : ListenerMap) (childWildcards : Listeners) (subscribers : Listeners)
    (changeset : List Change) : Listeners × List Change :=
  changeset.foldl
    (fun (subscribers, changes) (key, value) =>
      let listeners := childEntries.lookup key
      let subscribers := match listeners with
        | some listeners => extend subscribers listeners
        | none => subscribers
      (extend subscribers childWildcards,
        if !childWildcards.isEmpty || listeners.isSome then changes ++ [(key, value)] else changes))
    (subscribers, [])

/-- The loop of `trigger` over the child changes. -/
def collectChildChanges (notifications : StorageNotifications) (subscribers : Listeners)
    (childChangeset : List (StorageKey × List Change)) : Listeners × List (StorageKey × List Change) :=
  childChangeset.foldl
    (fun (subscribers, childChanges) (storageKey, changeset) =>
      match notifications.childListeners.lookup storageKey with
      | some (childEntries, childWildcards) =>
        let (subscribers, changes) := collectChildKeyChanges childEntries childWildcards subscribers changeset
        (subscribers, if !changes.isEmpty then childChanges ++ [(storageKey, changes)] else childChanges)
      | none => (subscribers, childChanges))
    (subscribers, [])

variable {Hash : Type}

/-- The sends of `trigger`: each subscriber's sink is looked up (the `expect`
panics when it is missing) and a failed send removes the subscriber. -/
def send (hash : Hash) (changes : List Change) (childChanges : List (StorageKey × List Change)) :
    List SubscriberId → StorageNotifications → Option (StorageNotifications × List (SubscriberId × Hash × StorageChangeSet))
  | [], notifications => some (notifications, [])
  | subscriber :: rest, notifications => do
    let sink ← notifications.sinks.lookup subscriber
    if sink.connected then
      let (notifications, sent) ← send hash changes childChanges rest notifications
      pure (notifications, (subscriber, hash, ⟨changes, childChanges, sink.filter, sink.childFilters⟩) :: sent)
    else send hash changes childChanges rest (notifications.removeSubscriber subscriber)

/-- `trigger(hash, changeset, child_changeset)`: the registry after it and the
notifications it delivers; `none` is the panic of the `expect`. -/
def trigger (notifications : StorageNotifications) (hash : Hash) (changeset : List Change)
    (childChangeset : List (StorageKey × List Change)) :
    Option (StorageNotifications × List (SubscriberId × Hash × StorageChangeSet)) :=
  let hasWildcard := !notifications.wildcardListeners.isEmpty
  if !hasWildcard && notifications.listeners.isEmpty && notifications.childListeners.isEmpty then
    some (notifications, [])
  else
    let (subscribers, changes) :=
      notifications.collectChanges hasWildcard notifications.wildcardListeners changeset
    let (subscribers, childChanges) := notifications.collectChildChanges subscribers childChangeset
    if changes.isEmpty && childChanges.isEmpty then some (notifications, [])
    else send hash changes childChanges subscribers notifications

/-! ## What the registry promises -/

/-- Every subscriber id held in a listener set of the first four maps. -/
def listed (notifications : StorageNotifications) : List SubscriberId :=
  notifications.wildcardListeners ++ notifications.listeners.entries.flatMap (·.2) ++
    notifications.childListeners.entries.flatMap fun entry => entry.2.1.entries.flatMap (·.2) ++ entry.2.2

/-- Every listed subscriber has a sink, so the `expect` of `trigger` holds. -/
def consistent (notifications : StorageNotifications) : Bool :=
  notifications.listed.all fun subscriber => (notifications.sinks.lookup subscriber).isSome

/-- What each notification of a `trigger` shows its subscriber through `iter`. -/
def seen (result : StorageNotifications × List (SubscriberId × Hash × StorageChangeSet)) :
    List (SubscriberId × List (Option StorageKey × Change)) :=
  result.2.map fun message => (message.1, message.2.2.iter)

set_option synthInstance.maxSize 512 in
/-- A subscriber that names the child storage key `[1]` twice, for the keys
`[1]` and then `[2]`, is sent a notification of a change of `[1]` that shows
it nothing; once its receiver is dropped, a change of `[2]` removes it
through the filter for `[2]` only, and it stays a listener of `[1]` without a
sink, so the next change of `[1]` panics. -/
theorem repeated_child_key_breaks_registry :
    (default.listen (some []) (some [([1], some [[1]]), ([1], some [[2]])])).1.consistent = true ∧
      ((default.listen (some []) (some [([1], some [[1]]), ([1], some [[2]])])).1.trigger () []
        [([1], [([1], some [7])])]).map seen = some [(1, [])] ∧
      (((default.listen (some []) (some [([1], some [[1]]), ([1], some [[2]])])).1.dropReceiver 1).trigger () []
        [([1], [([2], some [7])])]).map (consistent ∘ Prod.fst) = some false ∧
      ((((default.listen (some []) (some [([1], some [[1]]), ([1], some [[2]])])).1.dropReceiver 1).trigger () []
        [([1], [([2], some [7])])]).bind
        fun (result : StorageNotifications × List (SubscriberId × Unit × StorageChangeSet)) =>
          result.1.trigger () [] [([1], [([1], some [7])])]).isNone = true := by
  decide

end StorageNotifications

end OffchainStorage.Notifications
