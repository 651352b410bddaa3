import Mathlib
import OffchainStorage.Lib.Counting
import OffchainStorage.Lib.AListFold
import OffchainStorage.Lib.Neighbours
import OffchainStorage.Lib.Transition
import OffchainStorage.Peerset.PeersState

/-!
# The slot counters of the peerset

`num_in` and `num_out` are meant to count the connected nodes in no priority
group, by direction: `slotsUsed`.  Every call through the interface keeps
them so, and `set_priority_group` moves the slots of the nodes that leave or
join the priority groups; a disconnection or a node joining a group therefore
never takes a counter below zero.

The limits `max_in` and `max_out` are checked only when a node connects, so a
counter goes over its limit only through nodes that connected as priority
nodes and have left every group since.  A ghost flag, `updateFlags`, marks
the connected nodes that have been priority since they connected; those not
flagged fit in the limits (`freshSlots`).  `Accounted` is the invariant, and
`run_slot_counters` the result over every run.
-/

namespace OffchainStorage.Peerset

namespace PeersState

variable {PeerId GroupId : Type} [DecidableEq PeerId] [DecidableEq GroupId]

/-- The connection state of a node; an unknown node is not connected. -/
def stateOf (state : PeersState PeerId GroupId) (peerId : PeerId) : ConnectionState :=
  ((state.nodes.lookup peerId).map Node.connectionState).getD .NotConnected

def isConnected (state : PeersState PeerId GroupId) (peerId : PeerId) : Bool :=
  (state.stateOf peerId).isConnected

/-- The known nodes in a connection state that pass a test. -/
def countIn (state : PeersState PeerId GroupId) (connectionState : ConnectionState) (test : PeerId → Bool) :
    Nat :=
  state.nodes.keys.countP fun peerId => decide (state.stateOf peerId = connectionState) && test peerId

/-- The nodes in a connection state that are in no priority group: those
that take its slots. -/
def slotsUsed (state : PeersState PeerId GroupId) (connectionState : ConnectionState) : Nat :=
  state.countIn connectionState fun peerId => !state.isPriority peerId

/-- The nodes of `slotsUsed` that are not flagged. -/
def freshSlots (state : PeersState PeerId GroupId) (flagged : PeerId → Bool) (connectionState : ConnectionState) :
    Nat :=
  state.countIn connectionState fun peerId => !state.isPriority peerId && !flagged peerId

theorem stateOf_of_lookup {state : PeersState PeerId GroupId} {peerId : PeerId} {node : Node}
    (found : state.nodes.lookup peerId = some node) : state.stateOf peerId = node.connectionState := by
  rw [stateOf, found]
  rfl

theorem stateOf_of_not_mem {state : PeersState PeerId GroupId} {peerId : PeerId}
    (unknown : peerId ∉ state.nodes) : state.stateOf peerId = .NotConnected := by
  rw [stateOf, AList.lookup_eq_none.mpr unknown]
  rfl

theorem mem_keys_of_stateOf {state : PeersState PeerId GroupId} {peerId : PeerId} {connectionState : ConnectionState}
    (connected : connectionState.isConnected = true) (inState : state.stateOf peerId = connectionState) :
    peerId ∈ state.nodes.keys := by
  by_contra unknown
  rw [stateOf_of_not_mem unknown] at inState
  subst inState
  cases connected

/-! ## Counts of nodes -/

section Counts

variable (state : PeersState PeerId GroupId) (connectionState : ConnectionState)

theorem countIn_congr {test other : PeerId → Bool}
    (agree : ∀ peerId, state.stateOf peerId = connectionState → test peerId = other peerId) :
    state.countIn connectionState test = state.countIn connectionState other := by
  apply List.countP_congr
  intro peerId _
  by_cases inState : state.stateOf peerId = connectionState
  · simp [inState, agree peerId inState]
  · simp [inState]

theorem countIn_split (test split : PeerId → Bool) :
    state.countIn connectionState test =
      state.countIn connectionState (fun peerId => test peerId && split peerId) +
        state.countIn connectionState fun peerId => test peerId && !split peerId := by
  unfold countIn
  rw [Counting.countP_split _ split]
  simp only [Bool.and_assoc]

theorem countIn_le {test other : PeerId → Bool}
    (implies : ∀ peerId, state.stateOf peerId = connectionState → test peerId = true → other peerId = true) :
    state.countIn connectionState test ≤ state.countIn connectionState other := by
  apply List.countP_mono_left
  intro peerId _ passed
  simp only [Bool.and_eq_true, decide_eq_true_eq] at passed ⊢
  exact ⟨passed.1, implies peerId passed.1 passed.2⟩

/-- A count over a set of nodes is a count over the known nodes. -/
theorem countP_eq_countIn {ids : List PeerId} (nodup : ids.Nodup) (connected : connectionState.isConnected = true)
    (test : PeerId → Bool) :
    ids.countP (fun peerId => test peerId && decide (state.stateOf peerId = connectionState)) =
      state.countIn connectionState fun peerId => decide (peerId ∈ ids) && test peerId := by
  rw [Counting.countP_eq_countP_mem nodup state.nodes.keys_nodup]
  · unfold countIn
    apply List.countP_congr
    intro peerId _
    simp only [Bool.and_eq_true, decide_eq_true_eq]
    tauto
  · intro peerId passed
    simp only [Bool.and_eq_true, decide_eq_true_eq] at passed
    exact mem_keys_of_stateOf connected passed.2

/-- One node changes its state and test, the list of nodes staying: the
counts differ by that node alone. -/
theorem countIn_update {after : PeersState PeerId GroupId} {peerId : PeerId} {test other : PeerId → Bool}
    (sameKeys : after.nodes.keys = state.nodes.keys) (present : peerId ∈ state.nodes.keys)
    (elsewhere : ∀ node, node ≠ peerId → after.stateOf node = state.stateOf node ∧ other node = test node) :
    after.countIn connectionState other +
        (if decide (state.stateOf peerId = connectionState) && test peerId then 1 else 0) =
      state.countIn connectionState test +
        if decide (after.stateOf peerId = connectionState) && other peerId then 1 else 0 := by
  unfold countIn
  rw [sameKeys]
  apply Counting.countP_update state.nodes.keys_nodup present
  intro node _ different
  rw [(elsewhere node different).1, (elsewhere node different).2]

end Counts

/-! ## Tables that only gain nodes -/

/-- `after` knows the nodes of `before`, each in the same connection state,
and maybe more, not connected. -/
structure Extends (before after : PeersState PeerId GroupId) : Prop where
  keys_eq : ∃ added, after.nodes.keys = added ++ before.nodes.keys
  stateOf_eq : ∀ peerId, after.stateOf peerId = before.stateOf peerId

theorem Extends.refl (state : PeersState PeerId GroupId) : Extends state state :=
  ⟨⟨[], rfl⟩, fun _ => rfl⟩

theorem Extends.trans {first second third : PeersState PeerId GroupId} (earlier : Extends first second)
    (later : Extends second third) : Extends first third := by
  obtain ⟨added, keysSecond⟩ := earlier.keys_eq
  obtain ⟨more, keysThird⟩ := later.keys_eq
  refine ⟨⟨more ++ added, ?_⟩, fun peerId => (later.stateOf_eq peerId).trans (earlier.stateOf_eq peerId)⟩
  rw [keysThird, keysSecond, List.append_assoc]

/-- `Extends` reads the node tables only. -/
theorem Extends.of_nodes_eq {before after other : PeersState PeerId GroupId} (extended : Extends before after)
    (sameNodes : other.nodes = after.nodes) : Extends before other := by
  have sameStates : other.stateOf = after.stateOf := by
    funext peerId
    unfold stateOf
    rw [sameNodes]
  refine ⟨?_, fun peerId => ?_⟩
  · rw [sameNodes]
    exact extended.keys_eq
  · rw [sameStates]
    exact extended.stateOf_eq peerId

/-- The nodes a table gains are not connected, so no count of a connected
state changes. -/
theorem Extends.countIn_eq {before after : PeersState PeerId GroupId} (extended : Extends before after)
    {connectionState : ConnectionState} (connected : connectionState.isConnected = true) (test : PeerId → Bool) :
    after.countIn connectionState test = before.countIn connectionState test := by
  obtain ⟨added, keys⟩ := extended.keys_eq
  have noneCounted : added.countP (fun peerId => decide (after.stateOf peerId = connectionState) && test peerId) = 0 := by
    rw [List.countP_eq_zero]
    intro peerId inAdded counted
    have fresh : peerId ∉ before.nodes.keys := by
      have nodup := after.nodes.keys_nodup
      rw [keys] at nodup
      exact List.disjoint_of_nodup_append nodup inAdded
    simp only [Bool.and_eq_true, decide_eq_true_eq] at counted
    rw [extended.stateOf_eq] at counted
    exact fresh (mem_keys_of_stateOf connected counted.1)
  unfold countIn
  rw [keys, List.countP_append, noneCounted, Nat.zero_add]
  exact List.countP_congr fun peerId _ => by rw [extended.stateOf_eq]

theorem extends_insert_of_not_mem (state : PeersState PeerId GroupId) {peerId : PeerId} (unknown : peerId ∉ state.nodes)
    (node : Node) (notConnected : node.connectionState = .NotConnected) :
    Extends state { state with nodes := state.nodes.insert peerId node } := by
  refine ⟨⟨[peerId], ?_⟩, fun other => ?_⟩
  · rw [AList.keys_insert, List.erase_of_not_mem (mt AList.mem_keys.mp unknown)]
    rfl
  · by_cases same : other = peerId
    · subst same
      rw [stateOf_of_not_mem unknown, stateOf_of_lookup (AList.lookup_insert _), notConnected]
    · unfold stateOf
      rw [AList.lookup_insert_ne same]

theorem extends_entryOrDefault (state : PeersState PeerId GroupId) (peerId : PeerId) :
    Extends state (state.entryOrDefault peerId) := by
  unfold entryOrDefault
  split
  · exact Extends.refl state
  · rename_i unknown
    exact extends_insert_of_not_mem state unknown default rfl

theorem extends_discover (state : PeersState PeerId GroupId) {peerId : PeerId} (unknown : peerId ∉ state.nodes) :
    Extends state (state.discover peerId) :=
  extends_insert_of_not_mem state unknown _ rfl

/-- A node written back in the state it was read in. -/
theorem extends_replace_of_connectionState (state : PeersState PeerId GroupId) {peerId : PeerId} {node : Node}
    (found : state.nodes.lookup peerId = some node) (written : Node)
    (sameState : written.connectionState = node.connectionState) :
    Extends state { state with nodes := state.nodes.replace peerId written } := by
  refine ⟨⟨[], AList.keys_replace _ _ _⟩, fun other => ?_⟩
  by_cases same : other = peerId
  · subst same
    unfold stateOf
    rw [AList.lookup_replace_self, found]
    simp [sameState]
  · unfold stateOf
    rw [AList.lookup_replace_of_ne _ _ same]

theorem extends_updateReputation (state : PeersState PeerId GroupId) (peerId : PeerId) (update : Int → Int) :
    Extends state (state.updateReputation peerId update) := by
  have present : peerId ∈ (state.entryOrDefault peerId).nodes := by
    unfold entryOrDefault
    split
    · assumption
    · exact (AList.mem_insert _).mpr (Or.inl rfl)
  obtain ⟨node, found⟩ := Option.isSome_iff_exists.mp (AList.lookup_isSome.mpr present)
  have written := extends_replace_of_connectionState (state.entryOrDefault peerId) found
    { node with reputation := update node.reputation } rfl
  unfold updateReputation
  dsimp only
  rw [found]
  exact (extends_entryOrDefault state peerId).trans written

/-! ## The loops of `set_priority_group` -/

/-- A node of a loop of `set_priority_group` that moves a slot of the
direction `connectionState`: in no other group and in that state. -/
def movesSlot (allOtherGroups : PeerId → Bool) (state : PeersState PeerId GroupId)
    (connectionState : ConnectionState) (peerId : PeerId) : Bool :=
  !allOtherGroups peerId && decide (state.stateOf peerId = connectionState)

@[simp]
theorem stateOf_incrementSlot (connectionState : ConnectionState) (state : PeersState PeerId GroupId)
    (peerId : PeerId) : (state.incrementSlot connectionState).stateOf peerId = state.stateOf peerId := by
  cases connectionState <;> rfl

theorem entryOrDefault_eq (state : PeersState PeerId GroupId) (peerId : PeerId) :
    state.entryOrDefault peerId = { state with nodes := (state.entryOrDefault peerId).nodes } := by
  unfold entryOrDefault
  split <;> rfl

theorem noLongerPriority_eq (allOtherGroups : PeerId → Bool) (state : PeersState PeerId GroupId) (peerId : PeerId) :
    noLongerPriority allOtherGroups state peerId =
      if allOtherGroups peerId then state else state.incrementSlot (state.stateOf peerId) := by
  unfold noLongerPriority stateOf
  cases allOtherGroups peerId <;> cases state.nodes.lookup peerId <;> rfl

/-- The loop over the nodes no longer priority adds to each counter the
nodes of its direction that move a slot. -/
theorem foldl_noLongerPriority (allOtherGroups : PeerId → Bool) (ids : List PeerId) (state : PeersState PeerId GroupId) :
    ids.foldl (noLongerPriority allOtherGroups) state =
      { state with
        numIn := state.numIn + ids.countP (movesSlot allOtherGroups state .In)
        numOut := state.numOut + ids.countP (movesSlot allOtherGroups state .Out) } := by
  induction ids generalizing state with
  | nil => rfl
  | cons peerId rest ih =>
    rw [List.foldl_cons, ih, noLongerPriority_eq]
    unfold movesSlot
    cases others : allOtherGroups peerId
    · simp only [Bool.false_eq_true, if_false, stateOf_incrementSlot]
      cases inState : state.stateOf peerId <;>
        simp [incrementSlot, others, inState] <;> omega
    · simp [others]

theorem becomePriority_eq (allOtherGroups : PeerId → Bool) (state : PeersState PeerId GroupId) (peerId : PeerId) :
    becomePriority allOtherGroups state peerId =
      if allOtherGroups peerId then some state
      else (state.entryOrDefault peerId).decrementSlot (state.stateOf peerId) := by
  have readBack : (((state.entryOrDefault peerId).nodes.lookup peerId).getD default).connectionState =
      state.stateOf peerId := by
    rw [← (extends_entryOrDefault state peerId).stateOf_eq peerId]
    unfold stateOf
    cases (state.entryOrDefault peerId).nodes.lookup peerId <;> rfl
  unfold becomePriority
  dsimp only
  rw [readBack]
  cases allOtherGroups peerId <;> rfl

/-- One step of the loop over the nodes that become priority: a node that
moves a slot takes it from its counter, which holds it. -/
theorem becomePriority_spec (allOtherGroups : PeerId → Bool) (state : PeersState PeerId GroupId) (peerId : PeerId)
    (enoughIn : (if movesSlot allOtherGroups state .In peerId then 1 else 0) ≤ state.numIn)
    (enoughOut : (if movesSlot allOtherGroups state .Out peerId then 1 else 0) ≤ state.numOut) :
    ∃ next, becomePriority allOtherGroups state peerId = some next ∧ Extends state next ∧
      next = { state with
        nodes := next.nodes
        numIn := state.numIn - if movesSlot allOtherGroups state .In peerId then 1 else 0
        numOut := state.numOut - if movesSlot allOtherGroups state .Out peerId then 1 else 0 } := by
  rw [becomePriority_eq]
  cases others : allOtherGroups peerId
  · have extended := extends_entryOrDefault state peerId
    rw [entryOrDefault_eq] at extended ⊢
    cases inState : state.stateOf peerId
    · have movesIn : movesSlot allOtherGroups state .In peerId = true := by simp [movesSlot, others, inState]
      have movesOut : movesSlot allOtherGroups state .Out peerId = false := by simp [movesSlot, inState]
      simp only [movesIn, movesOut, if_true, Bool.false_eq_true, if_false] at enoughIn ⊢
      refine ⟨{ state with nodes := (state.entryOrDefault peerId).nodes, numIn := state.numIn - 1 }, ?_,
        extended.of_nodes_eq rfl, rfl⟩
      simp [decrementSlot, RustInt.checkedSub_of_le enoughIn]
    · have movesIn : movesSlot allOtherGroups state .In peerId = false := by simp [movesSlot, inState]
      have movesOut : movesSlot allOtherGroups state .Out peerId = true := by simp [movesSlot, others, inState]
      simp only [movesIn, movesOut, if_true, Bool.false_eq_true, if_false] at enoughOut ⊢
      refine ⟨{ state with nodes := (state.entryOrDefault peerId).nodes, numOut := state.numOut - 1 }, ?_,
        extended.of_nodes_eq rfl, rfl⟩
      simp [decrementSlot, RustInt.checkedSub_of_le enoughOut]
    · have movesIn : movesSlot allOtherGroups state .In peerId = false := by simp [movesSlot, inState]
      have movesOut : movesSlot allOtherGroups state .Out peerId = false := by simp [movesSlot, inState]
      simp only [movesIn, movesOut, Bool.false_eq_true, if_false]
      exact ⟨_, rfl, extended, rfl⟩
  · have unmoved : ∀ connectionState, movesSlot allOtherGroups state connectionState peerId = false := by
      simp [movesSlot, others]
    simp only [unmoved, Bool.false_eq_true, if_false, if_true]
    exact ⟨state, rfl, Extends.refl state, rfl⟩

/-- The loop over the nodes that become priority does not underflow when
each counter holds the nodes of its direction that move a slot, and takes
them from it. -/
theorem foldlM_becomePriority (allOtherGroups : PeerId → Bool) (ids : List PeerId) (state : PeersState PeerId GroupId)
    (enoughIn : ids.countP (movesSlot allOtherGroups state .In) ≤ state.numIn)
    (enoughOut : ids.countP (movesSlot allOtherGroups state .Out) ≤ state.numOut) :
    ∃ final, ids.foldlM (becomePriority allOtherGroups) state = some final ∧ Extends state final ∧
      final = { state with
        nodes := final.nodes
        numIn := state.numIn - ids.countP (movesSlot allOtherGroups state .In)
        numOut := state.numOut - ids.countP (movesSlot allOtherGroups state .Out) } := by
  induction ids generalizing state with
  | nil => exact ⟨state, rfl, Extends.refl state, rfl⟩
  | cons peerId rest ih =>
    rw [List.countP_cons] at enoughIn enoughOut
    obtain ⟨next, stepped, extended, nextEq⟩ :=
      becomePriority_spec allOtherGroups state peerId (by omega) (by omega)
    have sameMoves : movesSlot allOtherGroups next = movesSlot allOtherGroups state := by
      funext connectionState other
      unfold movesSlot
      rw [extended.stateOf_eq]
    obtain ⟨final, ran, extendedRest, finalEq⟩ := ih next
      (by rw [sameMoves, nextEq]; dsimp only; omega) (by rw [sameMoves, nextEq]; dsimp only; omega)
    refine ⟨final, by rw [List.foldlM_cons, stepped]; exact ran, extended.trans extendedRest, ?_⟩
    rw [sameMoves] at finalEq
    rw [finalEq, nextEq, List.countP_cons, List.countP_cons]
    dsimp only
    congr 1 <;> omega

/-- The slots of a direction that `set_priority_group` gives back: the nodes
of the old group in that state and in no other group. -/
def slotsReleased (groupId : GroupId) (state : PeersState PeerId GroupId) (connectionState : ConnectionState) :
    Nat :=
  (state.existingGroup groupId).ids.countP (movesSlot (state.allOtherGroups groupId) state connectionState)

/-- The slots of a direction that `set_priority_group` takes: the nodes of
the new group in that state and in no other group. -/
def slotsTaken (groupId : GroupId) (peers : PeerSet PeerId) (state : PeersState PeerId GroupId)
    (connectionState : ConnectionState) : Nat :=
  peers.ids.countP (movesSlot (state.allOtherGroups groupId) state connectionState)

/-- `set_priority_group` does not underflow when each counter with the slots
given back holds the slots taken; it then moves the counters by both and
replaces the group. -/
theorem setPriorityGroup_spec (groupId : GroupId) (peers : PeerSet PeerId) (state : PeersState PeerId GroupId)
    (enoughIn : state.slotsTaken groupId peers .In ≤ state.numIn + state.slotsReleased groupId .In)
    (enoughOut : state.slotsTaken groupId peers .Out ≤ state.numOut + state.slotsReleased groupId .Out) :
    ∃ after, state.setPriorityGroup groupId peers = some after ∧ Extends state after ∧
      after = { state with
        nodes := after.nodes
        numIn := state.numIn + state.slotsReleased groupId .In - state.slotsTaken groupId peers .In
        numOut := state.numOut + state.slotsReleased groupId .Out - state.slotsTaken groupId peers .Out
        priorityNodes := (state.priorityNodes.erase groupId).insert groupId peers } := by
  let released : PeersState PeerId GroupId := { state with
    numIn := state.numIn + state.slotsReleased groupId .In
    numOut := state.numOut + state.slotsReleased groupId .Out
    priorityNodes := state.priorityNodes.erase groupId }
  obtain ⟨final, ran, extended, finalEq⟩ :=
    foldlM_becomePriority (state.allOtherGroups groupId) peers.ids released enoughIn enoughOut
  have loops : state.setPriorityGroup groupId peers =
      some { final with priorityNodes := final.priorityNodes.insert groupId peers } := by
    unfold setPriorityGroup
    dsimp only
    rw [foldl_noLongerPriority]
    erw [ran]
    rfl
  have startExtended : Extends state released := (Extends.refl state).of_nodes_eq rfl
  refine ⟨_, loops, (startExtended.trans extended).of_nodes_eq rfl, ?_⟩
  rw [finalEq]
  rfl

/-! ## Priority -/

theorem isPriority_eq_existing_or_others (groupId : GroupId) (state : PeersState PeerId GroupId)
    (peerId : PeerId) :
    state.isPriority peerId =
      ((state.existingGroup groupId).contains peerId || state.allOtherGroups groupId peerId) := by
  unfold isPriority allOtherGroups existingGroup
  rw [AList.any_entries_eq_lookup_or_others _ _ groupId]
  cases state.priorityNodes.lookup groupId <;> rfl

/-- Once a group is replaced, a node is priority when it is in the new group
or in another. -/
theorem isPriority_of_replaced {state after : PeersState PeerId GroupId} {groupId : GroupId}
    {peers : PeerSet PeerId} (replaced : after.priorityNodes = (state.priorityNodes.erase groupId).insert groupId peers)
    (peerId : PeerId) :
    after.isPriority peerId = (peers.contains peerId || state.allOtherGroups groupId peerId) := by
  unfold isPriority allOtherGroups
  rw [replaced, AList.any_insert_entries, AList.any_erase_entries]
  simp only [← Bool.and_assoc, Bool.and_self]

/-! ## The invariant -/

/-- The flags after a call: a node stays flagged while it stays connected,
and a connected node in a priority group is flagged. -/
def updateFlags (before after : PeersState PeerId GroupId) (flagged : PeerId → Bool) (peerId : PeerId) : Bool :=
  after.isConnected peerId && (before.isConnected peerId && flagged peerId || after.isPriority peerId)

/-- The counters count the slots, the slots of the nodes not flagged fit in
the limits, and the flags are those of connected nodes, every connected
priority node among them. -/
structure Accounted (state : PeersState PeerId GroupId) (flagged : PeerId → Bool) : Prop where
  numOf_eq : ∀ connectionState : ConnectionState, connectionState.isConnected = true →
    state.numOf connectionState = state.slotsUsed connectionState
  freshSlots_le : ∀ connectionState : ConnectionState, connectionState.isConnected = true →
    state.freshSlots flagged connectionState ≤ state.maxOf connectionState
  connected_of_flagged : ∀ peerId, flagged peerId = true → state.isConnected peerId = true
  flagged_of_priority : ∀ peerId, state.isConnected peerId = true → state.isPriority peerId = true →
    flagged peerId = true

section Invariant

variable {before after : PeersState PeerId GroupId} {flagged : PeerId → Bool}

/-- The flags of `updateFlags` are always those of connected nodes, every
connected priority node among them: only the counts remain to be shown. -/
theorem Accounted.of_counts
    (numOf_eq : ∀ connectionState : ConnectionState, connectionState.isConnected = true →
      after.numOf connectionState = after.slotsUsed connectionState)
    (freshSlots_le : ∀ connectionState : ConnectionState, connectionState.isConnected = true →
      after.freshSlots (updateFlags before after flagged) connectionState ≤ after.maxOf connectionState) :
    Accounted after (updateFlags before after flagged) := by
  refine ⟨numOf_eq, freshSlots_le, fun peerId flaggedNow => ?_, fun peerId connected priority => ?_⟩
  · unfold updateFlags at flaggedNow
    exact ((Bool.and_eq_true _ _).mp flaggedNow).1
  · unfold updateFlags
    simp [connected, priority]

/-- A node whose connection and priority a call keeps keeps its flag. -/
theorem Accounted.updateFlags_eq (accounted : Accounted before flagged) {peerId : PeerId}
    (sameConnected : after.isConnected peerId = before.isConnected peerId)
    (samePriority : after.isPriority peerId = before.isPriority peerId) :
    updateFlags before after flagged peerId = flagged peerId := by
  unfold updateFlags
  rw [sameConnected, samePriority]
  cases connected : before.isConnected peerId
  · cases flaggedBefore : flagged peerId
    · rfl
    · have := accounted.connected_of_flagged peerId flaggedBefore
      rw [connected] at this
      cases this
  · cases priority : before.isPriority peerId
    · simp
    · simp [accounted.flagged_of_priority peerId connected priority]

theorem Accounted.freshSlots_le_slotsUsed (state : PeersState PeerId GroupId) (flagged : PeerId → Bool)
    (connectionState : ConnectionState) :
    state.freshSlots flagged connectionState ≤ state.slotsUsed connectionState :=
  state.countIn_le connectionState fun _ _ passed => ((Bool.and_eq_true _ _).mp passed).1

/-- A call that only adds nodes not connected, or changes what the
invariant does not read, keeps it, with the flags as they were. -/
theorem Accounted.of_extends (accounted : Accounted before flagged) (extended : Extends before after)
    (samePriority : after.isPriority = before.isPriority) (sameNum : after.numOf = before.numOf)
    (sameMax : after.maxOf = before.maxOf) :
    Accounted after (updateFlags before after flagged) := by
  have sameFlags : updateFlags before after flagged = flagged := by
    funext peerId
    apply accounted.updateFlags_eq
    · unfold isConnected
      rw [extended.stateOf_eq]
    · rw [samePriority]
  apply Accounted.of_counts
  · intro connectionState connected
    have counted := accounted.numOf_eq connectionState connected
    unfold slotsUsed at counted ⊢
    rw [sameNum, counted, samePriority, extended.countIn_eq connected]
  · intro connectionState connected
    unfold freshSlots
    rw [sameFlags, sameMax, samePriority, extended.countIn_eq connected]
    exact accounted.freshSlots_le connectionState connected

theorem Accounted.unchanged (accounted : Accounted before flagged) :
    Accounted before (updateFlags before before flagged) :=
  accounted.of_extends (Extends.refl before) rfl rfl rfl

/-- One node moves from one connection state to another, the nodes and the
groups staying.  When each counter moves by the node's slot, and a node that
takes a slot of a direction it was not in finds room there, the invariant is
kept. -/
theorem Accounted.of_moved (accounted : Accounted before flagged) {peerId : PeerId}
    (present : peerId ∈ before.nodes.keys) (sameKeys : after.nodes.keys = before.nodes.keys)
    (elsewhere : ∀ other, other ≠ peerId → after.stateOf other = before.stateOf other)
    (samePriority : after.isPriority = before.isPriority) (sameMax : after.maxOf = before.maxOf)
    (counters : ∀ connectionState : ConnectionState, connectionState.isConnected = true →
      after.numOf connectionState +
          (if decide (before.stateOf peerId = connectionState) && !before.isPriority peerId then 1 else 0) =
        before.numOf connectionState +
          if decide (after.stateOf peerId = connectionState) && !before.isPriority peerId then 1 else 0)
    (room : ∀ connectionState : ConnectionState, connectionState.isConnected = true →
      after.stateOf peerId = connectionState → before.stateOf peerId ≠ connectionState →
        before.isPriority peerId = false → before.numOf connectionState < before.maxOf connectionState) :
    Accounted after (updateFlags before after flagged) := by
  have flagsElsewhere : ∀ other, other ≠ peerId → updateFlags before after flagged other = flagged other :=
    fun other different => accounted.updateFlags_eq
      (by unfold isConnected; rw [elsewhere other different]) (by rw [samePriority])
  apply Accounted.of_counts
  · intro connectionState connected
    have moved := @countIn_update _ _ _ _ before connectionState after peerId
      (fun node => !before.isPriority node) (fun node => !before.isPriority node) sameKeys present
      fun other different => ⟨elsewhere other different, rfl⟩
    have counted := accounted.numOf_eq connectionState connected
    have step := counters connectionState connected
    unfold slotsUsed at counted ⊢
    rw [samePriority]
    omega
  · intro connectionState connected
    have moved := @countIn_update _ _ _ _ before connectionState after peerId
      (fun node => !before.isPriority node && !flagged node)
      (fun node => !before.isPriority node && !updateFlags before after flagged node) sameKeys present
      fun other different => ⟨elsewhere other different, by rw [flagsElsewhere other different]⟩
    have fits := accounted.freshSlots_le connectionState connected
    have bounded := Accounted.freshSlots_le_slotsUsed before flagged connectionState
    unfold freshSlots at fits bounded ⊢
    rw [samePriority, sameMax]
    by_cases gained : after.stateOf peerId = connectionState ∧ before.isPriority peerId = false ∧
        updateFlags before after flagged peerId = false
    · obtain ⟨arrived, notPriority, notFlagged⟩ := gained
      by_cases stayed : before.stateOf peerId = connectionState
      · -- the node was counted in this direction before, not flagged then either
        have sameFlag : updateFlags before after flagged peerId = flagged peerId :=
          accounted.updateFlags_eq (by unfold isConnected; rw [arrived, stayed]) (by rw [samePriority])
        simp only [stayed, arrived, notPriority, ← sameFlag, notFlagged, decide_true, Bool.not_false,
          Bool.and_self, if_true] at moved
        omega
      · have roomy := room connectionState connected arrived stayed notPriority
        have counted := accounted.numOf_eq connectionState connected
        unfold slotsUsed at counted bounded
        simp only [arrived, notPriority, notFlagged, decide_true, Bool.not_false, Bool.and_self,
          if_true] at moved
        omega
    · have notGained : (if decide (after.stateOf peerId = connectionState) &&
          (!before.isPriority peerId && !updateFlags before after flagged peerId) then 1 else 0) = 0 := by
        simp only [Bool.and_eq_true, decide_eq_true_eq, Bool.not_eq_true'] at gained ⊢
        simp [gained]
      rw [notGained] at moved
      omega

end Invariant

/-! ## The calls -/

section Calls

variable {state : PeersState PeerId GroupId} {peerId : PeerId}

theorem peer_of_lookup {node : Node} (found : state.nodes.lookup peerId = some node) :
    state.peer peerId = if node.connectionState.isConnected then .connected else .notConnected := by
  unfold peer
  rw [found]

theorem peer_of_lookup_none (absent : state.nodes.lookup peerId = none) : state.peer peerId = .unknown := by
  unfold peer
  rw [absent]

theorem exists_of_peer_notConnected (notConnected : state.peer peerId = .notConnected) :
    ∃ node, state.nodes.lookup peerId = some node ∧ state.stateOf peerId = .NotConnected := by
  cases found : state.nodes.lookup peerId with
  | none =>
    rw [peer_of_lookup_none found] at notConnected
    cases notConnected
  | some node =>
    rw [peer_of_lookup found] at notConnected
    refine ⟨node, rfl, ?_⟩
    rw [stateOf_of_lookup found]
    split at notConnected
    · cases notConnected
    · rename_i disconnected
      revert disconnected
      cases node.connectionState <;> simp [ConnectionState.isConnected]

theorem exists_of_peer_connected (connected : state.peer peerId = .connected) :
    ∃ node, state.nodes.lookup peerId = some node ∧ node.connectionState.isConnected = true := by
  cases found : state.nodes.lookup peerId with
  | none =>
    rw [peer_of_lookup_none found] at connected
    cases connected
  | some node =>
    rw [peer_of_lookup found] at connected
    refine ⟨node, rfl, ?_⟩
    split at connected
    · assumption
    · cases connected

theorem not_mem_of_peer_unknown (unknown : state.peer peerId = .unknown) : peerId ∉ state.nodes := by
  cases found : state.nodes.lookup peerId with
  | none => exact AList.lookup_eq_none.mp found
  | some node =>
    rw [peer_of_lookup found] at unknown
    split at unknown <;> cases unknown

theorem mem_keys_of_lookup {node : Node} (found : state.nodes.lookup peerId = some node) :
    peerId ∈ state.nodes.keys :=
  (AList.mem_keys_iff_isSome _ _).mpr (by rw [found]; rfl)

theorem stateOf_setConnectionState {node : Node} (found : state.nodes.lookup peerId = some node)
    (connectionState : ConnectionState) (other : PeerId) :
    (state.setConnectionState peerId node connectionState).stateOf other =
      if other = peerId then connectionState else state.stateOf other := by
  unfold setConnectionState stateOf
  dsimp only
  split_ifs with same
  · subst same
    rw [AList.lookup_replace_self, found]
    rfl
  · rw [AList.lookup_replace_of_ne _ _ same]

theorem stateOf_of_nodes_eq {other : PeersState PeerId GroupId} (sameNodes : other.nodes = state.nodes) :
    other.stateOf = state.stateOf := by
  funext peerId
  unfold stateOf
  rw [sameNodes]

theorem nodes_incrementSlot (connectionState : ConnectionState) :
    (state.incrementSlot connectionState).nodes = state.nodes := by
  cases connectionState <;> rfl

theorem isPriority_incrementSlot (connectionState : ConnectionState) :
    (state.incrementSlot connectionState).isPriority = state.isPriority := by
  cases connectionState <;> rfl

theorem maxOf_incrementSlot (connectionState : ConnectionState) :
    (state.incrementSlot connectionState).maxOf = state.maxOf := by
  cases connectionState <;> rfl

theorem numOf_incrementSlot {connectionState : ConnectionState} (connected : connectionState.isConnected = true)
    (other : ConnectionState) :
    (state.incrementSlot connectionState).numOf other =
      state.numOf other + if other = connectionState then 1 else 0 := by
  cases connectionState <;> cases other <;> simp_all [incrementSlot, numOf, ConnectionState.isConnected]

/-- `decrementSlot` on a counter that holds a slot changes that counter
alone. -/
theorem decrementSlot_spec {connectionState : ConnectionState} (connected : connectionState.isConnected = true)
    (enough : 1 ≤ state.numOf connectionState) :
    ∃ next, state.decrementSlot connectionState = some next ∧ next.nodes = state.nodes ∧
      next.isPriority = state.isPriority ∧ next.maxOf = state.maxOf ∧
      ∀ other, next.numOf other + (if other = connectionState then 1 else 0) = state.numOf other := by
  cases connectionState with
  | In =>
    refine ⟨{ state with numIn := state.numIn - 1 }, ?_, rfl, rfl, rfl, fun other => ?_⟩
    · simp [decrementSlot, RustInt.checkedSub_of_le (show 1 ≤ state.numIn from enough)]
    · cases other <;> simp [numOf] at enough ⊢
      omega
  | Out =>
    refine ⟨{ state with numOut := state.numOut - 1 }, ?_, rfl, rfl, rfl, fun other => ?_⟩
    · simp [decrementSlot, RustInt.checkedSub_of_le (show 1 ≤ state.numOut from enough)]
    · cases other <;> simp [numOf] at enough ⊢
      omega
  | NotConnected => cases connected

theorem ne_notConnected {connectionState : ConnectionState} (connected : connectionState.isConnected = true) :
    ConnectionState.NotConnected ≠ connectionState := by
  rintro rfl
  cases connected

theorem updateReputation_eq (update : Int → Int) :
    state.updateReputation peerId update = { state with nodes := (state.updateReputation peerId update).nodes } := by
  unfold updateReputation
  rw [entryOrDefault_eq]

/-- `disconnect` of a connected node: the node gives its slot back unless it
is priority. -/
theorem disconnect_of_connected {node : Node} (found : state.nodes.lookup peerId = some node)
    (connected : node.connectionState.isConnected = true) :
    state.disconnect peerId =
      if state.isPriority peerId then some (state.setConnectionState peerId node .NotConnected)
      else (state.decrementSlot node.connectionState).bind fun next =>
        some (next.setConnectionState peerId node .NotConnected) := by
  unfold PeersState.disconnect
  simp only [found]
  obtain ⟨connectionState, inState⟩ : ∃ connectionState, node.connectionState = connectionState := ⟨_, rfl⟩
  rw [inState] at connected ⊢
  cases state.isPriority peerId
  · cases connectionState
    · rfl
    · rfl
    · cases connected
  · rfl

variable {flagged : PeerId → Bool}

/-- `try_outgoing` and `try_accept_incoming` keep the invariant: a node in
no group connects only when its direction has room. -/
theorem Accounted.tryConnect (accounted : Accounted state flagged) {connectionState : ConnectionState}
    (connected : connectionState.isConnected = true) (notConnected : state.peer peerId = .notConnected) :
    Accounted (state.tryConnect connectionState peerId).2
      (updateFlags state (state.tryConnect connectionState peerId).2 flagged) := by
  obtain ⟨node, found, wasNotConnected⟩ := exists_of_peer_notConnected notConnected
  have present := mem_keys_of_lookup found
  have movedState := stateOf_setConnectionState found connectionState
  have otherMoved : ∀ other, other ≠ peerId →
      (state.setConnectionState peerId node connectionState).stateOf other = state.stateOf other :=
    fun other different => by rw [movedState, if_neg different]
  unfold PeersState.tryConnect
  dsimp only
  split_ifs with refused full free
  · exact accounted.unchanged
  · exact accounted.unchanged
  · -- a node in no group takes a slot of the direction, which has room
    have priority : state.isPriority peerId = false := by simpa using free
    simp only [priority, Bool.not_false, Bool.and_true, decide_eq_true_eq, not_le] at full
    simp only [found]
    apply accounted.of_moved present (by rw [nodes_incrementSlot]; exact AList.keys_replace _ _ _)
    · intro other different
      rw [stateOf_incrementSlot, otherMoved other different]
    · rw [isPriority_incrementSlot]
      rfl
    · rw [maxOf_incrementSlot]
      rfl
    · intro other connectedOther
      rw [numOf_incrementSlot connected, stateOf_incrementSlot, movedState, if_pos rfl, wasNotConnected,
        priority]
      by_cases same : other = connectionState
      · subst same
        simp [ne_notConnected connectedOther]
        rfl
      · simp [same, ne_notConnected connectedOther, Ne.symm same]
        rfl
    · intro other _ arrived _ _
      rw [stateOf_incrementSlot, movedState, if_pos rfl] at arrived
      subst arrived
      exact full
  · -- a priority node takes no slot
    have priority : state.isPriority peerId = true := by simpa using free
    simp only [found]
    apply accounted.of_moved present (AList.keys_replace _ _ _) otherMoved rfl rfl
    · intro other _
      simp [priority]
      rfl
    · intro other _ _ _ notPriority
      rw [priority] at notPriority
      cases notPriority

/-- `disconnect` of a connected node keeps the invariant, and the counter it
lowers holds the node's slot. -/
theorem Accounted.disconnect (accounted : Accounted state flagged) (isConnected : state.peer peerId = .connected) :
    ∃ after, state.disconnect peerId = some after ∧ Accounted after (updateFlags state after flagged) := by
  obtain ⟨node, found, wasConnected⟩ := exists_of_peer_connected isConnected
  have present := mem_keys_of_lookup found
  have inState := stateOf_of_lookup found
  rw [disconnect_of_connected found wasConnected]
  cases priority : state.isPriority peerId
  · -- the node gives its slot back
    have counted : 1 ≤ state.numOf node.connectionState := by
      rw [accounted.numOf_eq _ wasConnected]
      unfold slotsUsed countIn
      exact List.countP_pos_iff.mpr ⟨peerId, present, by simp [inState, priority]⟩
    obtain ⟨next, decremented, sameNodes, samePriority, sameMax, lowered⟩ :=
      state.decrementSlot_spec wasConnected counted
    have foundNext : next.nodes.lookup peerId = some node := by
      rw [sameNodes]
      exact found
    simp only [Bool.false_eq_true, if_false, decremented, Option.bind_some]
    refine ⟨_, rfl, accounted.of_moved present (by rw [← sameNodes]; exact AList.keys_replace _ _ _)
      (fun other different => ?_) samePriority sameMax ?_ ?_⟩
    · rw [stateOf_setConnectionState foundNext, if_neg different, stateOf_of_nodes_eq sameNodes]
    · intro other connectedOther
      have lowered := lowered other
      rw [stateOf_setConnectionState foundNext, if_pos rfl, inState, priority]
      by_cases same : other = node.connectionState
      · subst same
        simp [ne_notConnected connectedOther] at lowered ⊢
        exact lowered
      · simp [same, ne_notConnected connectedOther, Ne.symm same] at lowered ⊢
        exact lowered
    · intro other connectedOther arrived
      rw [stateOf_setConnectionState foundNext, if_pos rfl] at arrived
      exact absurd arrived (ne_notConnected connectedOther)
  · -- a priority node has no slot to give back
    refine ⟨_, rfl, accounted.of_moved present (AList.keys_replace _ _ _)
      (fun other different => by rw [stateOf_setConnectionState found, if_neg different]) rfl rfl ?_ ?_⟩
    · intro other _
      simp [priority]
      rfl
    · intro other _ _ _ notPriority
      rw [priority] at notPriority
      cases notPriority

/-- `set_priority_group` keeps the invariant: the counters hold the slots it
takes, and a node leaving every group while connected stays flagged. -/
theorem Accounted.setPriorityGroup (accounted : Accounted state flagged) (groupId : GroupId)
    (peers : PeerSet PeerId) :
    ∃ after, state.setPriorityGroup groupId peers = some after ∧
      Accounted after (updateFlags state after flagged) := by
  -- the counts of `set_priority_group`, by the known nodes in no other group
  have released : ∀ connectionState : ConnectionState, connectionState.isConnected = true →
      state.slotsReleased groupId connectionState = state.countIn connectionState fun node =>
        decide (node ∈ (state.existingGroup groupId).ids) && !state.allOtherGroups groupId node :=
    fun connectionState connected =>
      state.countP_eq_countIn connectionState (state.existingGroup groupId).nodup connected _
  have taken : ∀ connectionState : ConnectionState, connectionState.isConnected = true →
      state.slotsTaken groupId peers connectionState = state.countIn connectionState fun node =>
        decide (node ∈ peers.ids) && !state.allOtherGroups groupId node :=
    fun connectionState connected => state.countP_eq_countIn connectionState peers.nodup connected _
  have ungrouped : ∀ connectionState : ConnectionState, connectionState.isConnected = true →
      state.numOf connectionState + state.slotsReleased groupId connectionState =
        state.countIn connectionState fun node => !state.allOtherGroups groupId node := by
    intro connectionState connected
    have split := state.countIn_split connectionState (fun node => !state.allOtherGroups groupId node)
      fun node => decide (node ∈ (state.existingGroup groupId).ids)
    have inGroup : (state.countIn connectionState fun node =>
          decide (node ∈ (state.existingGroup groupId).ids) && !state.allOtherGroups groupId node) =
        state.countIn connectionState fun node =>
          !state.allOtherGroups groupId node && decide (node ∈ (state.existingGroup groupId).ids) :=
      state.countIn_congr connectionState fun node _ => Bool.and_comm _ _
    have outside : state.slotsUsed connectionState = state.countIn connectionState fun node =>
        !state.allOtherGroups groupId node && !decide (node ∈ (state.existingGroup groupId).ids) :=
      state.countIn_congr connectionState fun node _ => by
        rw [isPriority_eq_existing_or_others groupId, PeerSet.contains, Bool.not_or, Bool.and_comm]
    have counted := accounted.numOf_eq connectionState connected
    have releasedHere := released connectionState connected
    omega
  have enough : ∀ connectionState : ConnectionState, connectionState.isConnected = true →
      state.slotsTaken groupId peers connectionState ≤
        state.numOf connectionState + state.slotsReleased groupId connectionState := by
    intro connectionState connected
    rw [ungrouped connectionState connected, taken connectionState connected]
    apply countIn_le
    intro node _ passed
    exact ((Bool.and_eq_true _ _).mp passed).2
  obtain ⟨after, replaced, extended, afterEq⟩ :=
    state.setPriorityGroup_spec groupId peers (enough .In rfl) (enough .Out rfl)
  refine ⟨after, replaced, ?_⟩
  have priorityAfter : ∀ node, after.isPriority node = (peers.contains node || state.allOtherGroups groupId node) :=
    isPriority_of_replaced (by rw [afterEq])
  have numAfter : ∀ connectionState : ConnectionState, connectionState.isConnected = true →
      after.numOf connectionState = state.numOf connectionState + state.slotsReleased groupId connectionState -
        state.slotsTaken groupId peers connectionState := by
    intro connectionState connected
    cases connectionState with
    | In => rw [afterEq]; rfl
    | Out => rw [afterEq]; rfl
    | NotConnected => cases connected
  have maxAfter : after.maxOf = state.maxOf := by
    rw [afterEq]
    rfl
  apply Accounted.of_counts
  · intro connectionState connected
    rw [numAfter connectionState connected, ungrouped connectionState connected, taken connectionState connected]
    unfold slotsUsed
    rw [extended.countIn_eq connected,
      state.countIn_split connectionState _ fun node => decide (node ∈ peers.ids)]
    have joined : (state.countIn connectionState fun node =>
          decide (node ∈ peers.ids) && !state.allOtherGroups groupId node) =
        state.countIn connectionState fun node =>
          !state.allOtherGroups groupId node && decide (node ∈ peers.ids) :=
      state.countIn_congr connectionState fun node _ => Bool.and_comm _ _
    have stayed : (state.countIn connectionState fun node => !after.isPriority node) =
        state.countIn connectionState fun node =>
          !state.allOtherGroups groupId node && !decide (node ∈ peers.ids) :=
      state.countIn_congr connectionState fun node _ => by
        rw [priorityAfter, PeerSet.contains, Bool.not_or, Bool.and_comm]
    omega
  · intro connectionState connected
    unfold freshSlots
    rw [extended.countIn_eq connected, maxAfter]
    refine le_trans (state.countIn_le connectionState fun node inState passed => ?_)
      (accounted.freshSlots_le connectionState connected)
    -- a connected node keeps its flag, and is flagged if it was priority
    have connectedBefore : state.isConnected node = true := by
      unfold isConnected
      rw [inState]
      exact connected
    have connectedAfter : after.isConnected node = true := by
      unfold isConnected
      rw [extended.stateOf_eq, inState]
      exact connected
    have notFlagged : flagged node = false := by
      simp only [updateFlags, connectedBefore, connectedAfter, Bool.true_and, Bool.and_eq_true,
        Bool.not_eq_true', Bool.or_eq_false_iff] at passed
      exact passed.2.1
    have notPriority : state.isPriority node = false := by
      cases priority : state.isPriority node
      · rfl
      · have flaggedNode := accounted.flagged_of_priority node connectedBefore priority
        rw [notFlagged] at flaggedNode
        cases flaggedNode
    simp [notPriority, notFlagged]

/-- Every call through the interface succeeds and keeps the invariant. -/
theorem Accounted.perform (accounted : Accounted state flagged) (call : Call PeerId GroupId) :
    ∃ after, Call.perform state call = some after ∧ Accounted after (updateFlags state after flagged) := by
  have reputation : ∀ (peerId : PeerId) (update : Int → Int),
      Accounted (state.updateReputation peerId update) (updateFlags state (state.updateReputation peerId update) flagged) :=
    fun peerId update => accounted.of_extends (state.extends_updateReputation peerId update)
      (by rw [updateReputation_eq]; rfl) (by rw [updateReputation_eq]; rfl) (by rw [updateReputation_eq]; rfl)
  cases call with
  | discover peerId =>
    dsimp only [Call.perform]
    split_ifs with unknown
    · exact ⟨_, rfl, accounted.of_extends (state.extends_discover (not_mem_of_peer_unknown unknown)) rfl rfl rfl⟩
    · exact ⟨_, rfl, accounted.unchanged⟩
  | tryOutgoing peerId =>
    dsimp only [Call.perform]
    split_ifs with notConnected
    · exact ⟨_, rfl, accounted.tryConnect rfl notConnected⟩
    · exact ⟨_, rfl, accounted.unchanged⟩
  | tryAcceptIncoming peerId =>
    dsimp only [Call.perform]
    split_ifs with notConnected
    · exact ⟨_, rfl, accounted.tryConnect rfl notConnected⟩
    · exact ⟨_, rfl, accounted.unchanged⟩
  | disconnect peerId =>
    dsimp only [Call.perform]
    split_ifs with connected
    · exact accounted.disconnect connected
    · exact ⟨_, rfl, accounted.unchanged⟩
  | setReputation peerId value =>
    dsimp only [Call.perform]
    split_ifs
    · exact ⟨_, rfl, accounted.unchanged⟩
    · exact ⟨_, rfl, reputation peerId fun _ => value⟩
  | addReputation peerId modifier =>
    dsimp only [Call.perform]
    split_ifs
    · exact ⟨_, rfl, accounted.unchanged⟩
    · exact ⟨_, rfl, reputation peerId fun reputation => RustInt.saturatingAddSigned 32 reputation modifier⟩
  | setPriorityGroup groupId peers => exact accounted.setPriorityGroup groupId peers
  | addToPriorityGroup groupId peerId => exact accounted.setPriorityGroup groupId _
  | removeFromPriorityGroup groupId peerId => exact accounted.setPriorityGroup groupId _
  | setPriorityOnly priority =>
    exact ⟨_, rfl, accounted.of_extends ((Extends.refl state).of_nodes_eq rfl) rfl rfl rfl⟩

/-- A counter over its limit holds a node that connected as priority and has
left every group since. -/
theorem Accounted.exists_flagged_of_lt (accounted : Accounted state flagged) (connectionState : ConnectionState)
    (connected : connectionState.isConnected = true) (exceeded : state.maxOf connectionState < state.numOf connectionState) :
    ∃ node ∈ state.nodes.keys, state.stateOf node = connectionState ∧ state.isPriority node = false ∧
      flagged node = true := by
  have counted := accounted.numOf_eq connectionState connected
  have fits := accounted.freshSlots_le connectionState connected
  unfold slotsUsed at counted
  unfold freshSlots at fits
  rw [state.countIn_split connectionState _ flagged] at counted
  have flaggedCounted : 0 < state.countIn connectionState fun node => !state.isPriority node && flagged node := by
    omega
  obtain ⟨node, present, passed⟩ := List.countP_pos_iff.mp flaggedCounted
  simp only [Bool.and_eq_true, decide_eq_true_eq, Bool.not_eq_true'] at passed
  exact ⟨node, present, passed.1, passed.2.1, passed.2.2⟩

end Calls

end PeersState

namespace Call

variable {PeerId GroupId : Type} [DecidableEq PeerId] [DecidableEq GroupId]

/-- A call with the flags carried beside the state. -/
def track (tracked : PeersState PeerId GroupId × (PeerId → Bool)) (call : Call PeerId GroupId) :
    Option (PeersState PeerId GroupId × (PeerId → Bool)) :=
  (Call.perform tracked.1 call).map fun after => (after, PeersState.updateFlags tracked.1 after tracked.2)

end Call

variable {PeerId GroupId : Type} [DecidableEq PeerId] [DecidableEq GroupId]

/-- The calls from `new` with the flags, none at the start. -/
def runTracked (inPeers outPeers : Nat) (priorityOnly : Bool) (calls : List (Call PeerId GroupId)) :
    Option (PeersState PeerId GroupId × (PeerId → Bool)) :=
  calls.foldlM Call.track (PeersState.new inPeers outPeers priorityOnly, fun _ => false)

open PeersState

theorem run_eq_map_runTracked (inPeers outPeers : Nat) (priorityOnly : Bool) (calls : List (Call PeerId GroupId)) :
    run inPeers outPeers priorityOnly calls = (runTracked inPeers outPeers priorityOnly calls).map Prod.fst :=
  (Transition.foldlM_ghost (fun before flagged after => updateFlags before after flagged) calls _ _).symm

theorem accounted_new (inPeers outPeers : Nat) (priorityOnly : Bool) :
    Accounted (PeersState.new inPeers outPeers priorityOnly : PeersState PeerId GroupId) fun _ => false := by
  refine ⟨fun connectionState connected => ?_, fun _ _ => Nat.zero_le _, fun _ flagged => ?_, fun peerId connected _ => ?_⟩
  · cases connectionState <;> rfl
  · cases flagged
  · have unknown : peerId ∉ (PeersState.new inPeers outPeers priorityOnly : PeersState PeerId GroupId).nodes :=
      AList.notMem_empty peerId
    unfold isConnected at connected
    rw [stateOf_of_not_mem unknown] at connected
    cases connected

theorem runTracked_accounted (inPeers outPeers : Nat) (priorityOnly : Bool) (calls : List (Call PeerId GroupId)) :
    ∃ final flagged, runTracked inPeers outPeers priorityOnly calls = some (final, flagged) ∧
      Accounted final flagged := by
  have progress : ∀ (current : PeersState PeerId GroupId × (PeerId → Bool)) (call : Call PeerId GroupId),
      Accounted current.1 current.2 → ∃ next, Call.track current call = some next ∧ Accounted next.1 next.2 := by
    intro current call accounted
    obtain ⟨after, performed, kept⟩ := accounted.perform call
    refine ⟨(after, updateFlags current.1 after current.2), ?_, kept⟩
    unfold Call.track
    rw [performed]
    rfl
  obtain ⟨⟨final, flagged⟩, ran, accounted⟩ :=
    @Transition.foldlM_some_invariant _ _ _ (fun tracked : PeersState PeerId GroupId × (PeerId → Bool) =>
      Accounted tracked.1 tracked.2) progress calls (PeersState.new inPeers outPeers priorityOnly, fun _ => false)
      (accounted_new inPeers outPeers priorityOnly)
  exact ⟨final, flagged, ran, accounted⟩

/-- In every run of calls from `new` no counter underflows, `num_in` and
`num_out` count the connected nodes in no priority group of their direction,
and a counter over its limit holds a node, flagged by `runTracked`, that has
been priority since it connected and is in no group any more. -/
theorem run_slot_counters (inPeers outPeers : Nat) (priorityOnly : Bool) (calls : List (Call PeerId GroupId)) :
    ∃ final flagged, run inPeers outPeers priorityOnly calls = some final ∧
      runTracked inPeers outPeers priorityOnly calls = some (final, flagged) ∧
      final.numIn = final.slotsUsed .In ∧ final.numOut = final.slotsUsed .Out ∧
      (final.maxIn < final.numIn → ∃ peerId ∈ final.nodes.keys, final.stateOf peerId = .In ∧
        final.isPriority peerId = false ∧ flagged peerId = true) ∧
      (final.maxOut < final.numOut → ∃ peerId ∈ final.nodes.keys, final.stateOf peerId = .Out ∧
        final.isPriority peerId = false ∧ flagged peerId = true) := by
  obtain ⟨final, flagged, ran, accounted⟩ := runTracked_accounted inPeers outPeers priorityOnly calls
  refine ⟨final, flagged, ?_, ran, accounted.numOf_eq .In rfl, accounted.numOf_eq .Out rfl,
    accounted.exists_flagged_of_lt .In rfl, accounted.exists_flagged_of_lt .Out rfl⟩
  rw [run_eq_map_runTracked, ran]
  rfl

/-- A node connects outbound while priority and then leaves its group: with
no outbound slot, `num_out` is one over `max_out`. -/
example : ((run 0 0 false [.discover 1, .addToPriorityGroup 0 1, .tryOutgoing 1, .removeFromPriorityGroup 0 1] :
    Option (PeersState Nat Nat)).map fun state => (state.numOut, state.maxOut)) = some (1, 0) := by
  decide

end OffchainStorage.Peerset
