import Mathlib
import OffchainStorage.Lib.RustInt

/-!
# The peerset's node table and slot counters

`PeersState` knows a set of nodes, each connected to us inbound (`In`),
outbound (`Out`) or not at all, and counts in `num_in` and `num_out` the
connected nodes that are in no priority group; only those take a slot, and a
new non-priority connection is refused when the slots of its direction are
full.  Priority groups change membership with `set_priority_group`, which
gives a slot back for each connected node leaving every group and takes one
for each connected node joining one.

The peers of the peerset are reached through `peer`, which sorts a node as
connected, not connected or unknown: only a connected node can be
disconnected, only a node not connected can be connected, and only an unknown
one discovered.  `Call` is that interface.
-/

namespace OffchainStorage.Peerset

open RustInt

/-- `ConnectionState`, with the source's constructor names. -/
inductive ConnectionState where
  | In
  | Out
  | NotConnected
  deriving DecidableEq, Repr

/-- `ConnectionState::is_connected`. -/
def ConnectionState.isConnected : ConnectionState → Bool
  | .In => true
  | .Out => true
  | .NotConnected => false

/-- `Node`, with the `i32` reputation as an integer within its bounds. -/
structure Node where
  connectionState : ConnectionState
  reputation : Int
  deriving DecidableEq, Repr

instance : Inhabited Node :=
  ⟨⟨.NotConnected, 0⟩⟩

/-- A `HashSet<PeerId>`: its elements, each once. -/
structure PeerSet (PeerId : Type) where
  ids : List PeerId
  nodup : ids.Nodup

namespace PeerSet

variable {PeerId : Type} [DecidableEq PeerId]

def empty : PeerSet PeerId :=
  ⟨[], List.nodup_nil⟩

def contains (set : PeerSet PeerId) (peerId : PeerId) : Bool :=
  decide (peerId ∈ set.ids)

def insert (set : PeerSet PeerId) (peerId : PeerId) : PeerSet PeerId :=
  if present : peerId ∈ set.ids then set else ⟨peerId :: set.ids, List.nodup_cons.mpr ⟨present, set.nodup⟩⟩

def remove (set : PeerSet PeerId) (peerId : PeerId) : PeerSet PeerId :=
  ⟨set.ids.erase peerId, set.nodup.erase peerId⟩

end PeerSet

/-- `PeersState`; the counters are unbounded, the `u32` bound reached only
with `2 ^ 32` connections. -/
structure PeersState (PeerId GroupId : Type) [DecidableEq PeerId] [DecidableEq GroupId] where
  nodes : AList fun _ : PeerId => Node
  numIn : Nat
  numOut : Nat
  maxIn : Nat
  maxOut : Nat
  priorityNodes : AList fun _ : GroupId => PeerSet PeerId
  priorityOnly : Bool

/-- What `peer` returns for a node: `Peer::Connected`, `Peer::NotConnected`
or `Peer::Unknown`. -/
inductive PeerKind where
  | connected
  | notConnected
  | unknown
  deriving DecidableEq, Repr

namespace PeersState

variable {PeerId GroupId : Type} [DecidableEq PeerId] [DecidableEq GroupId]

def new (inPeers outPeers : Nat) (priorityOnly : Bool) : PeersState PeerId GroupId :=
  ⟨∅, 0, 0, inPeers, outPeers, ∅, priorityOnly⟩

def peer (state : PeersState PeerId GroupId) (peerId : PeerId) : PeerKind :=
  match state.nodes.lookup peerId with
  | none => .unknown
  | some node => if node.connectionState.isConnected then .connected else .notConnected

/-- `is_priority`: the node is in some priority group. -/
def isPriority (state : PeersState PeerId GroupId) (peerId : PeerId) : Bool :=
  state.priorityNodes.entries.any fun group => group.2.contains peerId

/-- The slot counter of a direction: `num_in` for `In`, `num_out` for `Out`. -/
def numOf (state : PeersState PeerId GroupId) : ConnectionState → Nat
  | .In => state.numIn
  | .Out => state.numOut
  | .NotConnected => 0

def maxOf (state : PeersState PeerId GroupId) : ConnectionState → Nat
  | .In => state.maxIn
  | .Out => state.maxOut
  | .NotConnected => 0

/-- `num_in += 1` or `num_out += 1` for a node in that state; nothing for a
node not connected. -/
def incrementSlot (connectionState : ConnectionState) (state : PeersState PeerId GroupId) :
    PeersState PeerId GroupId :=
  match connectionState with
  | .In => { state with numIn := state.numIn + 1 }
  | .Out => { state with numOut := state.numOut + 1 }
  | .NotConnected => state

/-- `num_in -= 1` or `num_out -= 1`, `none` when it underflows. -/
def decrementSlot (connectionState : ConnectionState) (state : PeersState PeerId GroupId) :
    Option (PeersState PeerId GroupId) :=
  match connectionState with
  | .In => (checkedSub state.numIn 1).map fun numIn => { state with numIn }
  | .Out => (checkedSub state.numOut 1).map fun numOut => { state with numOut }
  | .NotConnected => some state

/-- The connection state of a node written back with `get_mut`. -/
def setConnectionState (state : PeersState PeerId GroupId) (peerId : PeerId) (node : Node)
    (connectionState : ConnectionState) : PeersState PeerId GroupId :=
  { state with nodes := state.nodes.replace peerId { node with connectionState } }

def disconnect (peerId : PeerId) (state : PeersState PeerId GroupId) : Option (PeersState PeerId GroupId) := do
  let isPriority := state.isPriority peerId
  match state.nodes.lookup peerId with
  | some node =>
    let state ← if !isPriority then
        match node.connectionState with
        | .NotConnected => none -- `debug_assert!`: "State inconsistency: disconnecting a disconnected node"
        | connected => state.decrementSlot connected
      else some state
    pure (state.setConnectionState peerId node .NotConnected)
  -- "Attempting to disconnect unknown peer"
  | none => pure state

/-- `try_outgoing` for `Out` and `try_accept_incoming` for `In`: refused for
a non-priority node when only priority nodes are allowed or the slots of the
direction are full. -/
def tryConnect (connectionState : ConnectionState) (peerId : PeerId) (state : PeersState PeerId GroupId) :
    Bool × PeersState PeerId GroupId :=
  let isPriority := state.isPriority peerId
  -- we are only accepting connections from priority nodes
  if !isPriority && state.priorityOnly then (false, state)
  else if state.numOf connectionState ≥ state.maxOf connectionState && !isPriority then (false, state)
  else
    match state.nodes.lookup peerId with
    | some peer =>
      let state := state.setConnectionState peerId peer connectionState
      (true, if !isPriority then state.incrementSlot connectionState else state)
    | none => (false, state)

def tryOutgoing (peerId : PeerId) (state : PeersState PeerId GroupId) : Bool × PeersState PeerId GroupId :=
  tryConnect .Out peerId state

def tryAcceptIncoming (peerId : PeerId) (state : PeersState PeerId GroupId) : Bool × PeersState PeerId GroupId :=
  tryConnect .In peerId state

/-- `nodes.entry(peer_id).or_default()`. -/
def entryOrDefault (peerId : PeerId) (state : PeersState PeerId GroupId) : PeersState PeerId GroupId :=
  if peerId ∈ state.nodes then state else { state with nodes := state.nodes.insert peerId default }

/-- `all_other_groups`: the node is in a priority group other than `groupId`. -/
def allOtherGroups (groupId : GroupId) (state : PeersState PeerId GroupId) (peerId : PeerId) : Bool :=
  state.priorityNodes.entries.any fun group => group.1 != groupId && group.2.contains peerId

/-- `existing_group`: the group `groupId` before it is replaced, empty if
there is none. -/
def existingGroup (groupId : GroupId) (state : PeersState PeerId GroupId) : PeerSet PeerId :=
  (state.priorityNodes.lookup groupId).getD PeerSet.empty

/-- The body of the loop over the nodes that are no longer priority: one in
no other group gives its slot back. -/
def noLongerPriority (allOtherGroups : PeerId → Bool) (state : PeersState PeerId GroupId) (peerId : PeerId) :
    PeersState PeerId GroupId :=
  if !allOtherGroups peerId then
    match state.nodes.lookup peerId with
    | some peer => state.incrementSlot peer.connectionState
    | none => state
  else state

/-- The body of the loop over the nodes that become priority: one in no
other group is known from now on and takes no slot. -/
def becomePriority (allOtherGroups : PeerId → Bool) (state : PeersState PeerId GroupId) (peerId : PeerId) :
    Option (PeersState PeerId GroupId) :=
  if !allOtherGroups peerId then
    let state := state.entryOrDefault peerId
    state.decrementSlot ((state.nodes.lookup peerId).getD default).connectionState
  else some state

def setPriorityGroup (groupId : GroupId) (peers : PeerSet PeerId) (state : PeersState PeerId GroupId) :
    Option (PeersState PeerId GroupId) := do
  let allOtherGroups := state.allOtherGroups groupId
  let existingGroup := state.existingGroup groupId
  let state := { state with priorityNodes := state.priorityNodes.erase groupId }
  -- update slots for nodes that are no longer priority
  let state := existingGroup.ids.foldl (noLongerPriority allOtherGroups) state
  -- update slots for nodes that become priority
  let state ← peers.ids.foldlM (becomePriority allOtherGroups) state
  pure { state with priorityNodes := state.priorityNodes.insert groupId peers }

def addToPriorityGroup (groupId : GroupId) (peerId : PeerId) (state : PeersState PeerId GroupId) :
    Option (PeersState PeerId GroupId) :=
  let peers := ((state.priorityNodes.lookup groupId).getD PeerSet.empty).insert peerId
  state.setPriorityGroup groupId peers

def removeFromPriorityGroup (groupId : GroupId) (peerId : PeerId) (state : PeersState PeerId GroupId) :
    Option (PeersState PeerId GroupId) :=
  let peers := ((state.priorityNodes.lookup groupId).getD PeerSet.empty).remove peerId
  state.setPriorityGroup groupId peers

def setPriorityOnly (priority : Bool) (state : PeersState PeerId GroupId) : PeersState PeerId GroupId :=
  { state with priorityOnly := priority }

/-- The reputation of a node written through `entry(peer_id).or_default()`. -/
def updateReputation (peerId : PeerId) (update : Int → Int) (state : PeersState PeerId GroupId) :
    PeersState PeerId GroupId :=
  let state := state.entryOrDefault peerId
  let node := (state.nodes.lookup peerId).getD default
  { state with nodes := state.nodes.replace peerId { node with reputation := update node.reputation } }

def setReputation (peerId : PeerId) (value : Int) (state : PeersState PeerId GroupId) : PeersState PeerId GroupId :=
  state.updateReputation peerId fun _ => value

/-- `add_reputation`: a saturating `i32` addition. -/
def addReputation (peerId : PeerId) (modifier : Int) (state : PeersState PeerId GroupId) :
    PeersState PeerId GroupId :=
  state.updateReputation peerId fun reputation => saturatingAddSigned 32 reputation modifier

/-- `UnknownPeer::discover`: the node is known, not connected, of reputation
zero. -/
def discover (peerId : PeerId) (state : PeersState PeerId GroupId) : PeersState PeerId GroupId :=
  { state with nodes := state.nodes.insert peerId ⟨.NotConnected, 0⟩ }

end PeersState

/-! ## The interface of the peerset -/

/-- A call through the handles `peer` returns, or on the priority groups. -/
inductive Call (PeerId GroupId : Type) where
  | discover (peerId : PeerId)
  | tryOutgoing (peerId : PeerId)
  | tryAcceptIncoming (peerId : PeerId)
  | disconnect (peerId : PeerId)
  | setReputation (peerId : PeerId) (value : Int)
  | addReputation (peerId : PeerId) (modifier : Int)
  | setPriorityGroup (groupId : GroupId) (peers : PeerSet PeerId)
  | addToPriorityGroup (groupId : GroupId) (peerId : PeerId)
  | removeFromPriorityGroup (groupId : GroupId) (peerId : PeerId)
  | setPriorityOnly (priority : Bool)

namespace Call

variable {PeerId GroupId : Type} [DecidableEq PeerId] [DecidableEq GroupId]

/-- One call; a call on a handle that `peer` does not give for the node
cannot be made and changes nothing. -/
def perform (state : PeersState PeerId GroupId) : Call PeerId GroupId → Option (PeersState PeerId GroupId)
  | .discover peerId => if state.peer peerId = .unknown then some (state.discover peerId) else some state
  | .tryOutgoing peerId =>
    if state.peer peerId = .notConnected then some (state.tryOutgoing peerId).2 else some state
  | .tryAcceptIncoming peerId =>
    if state.peer peerId = .notConnected then some (state.tryAcceptIncoming peerId).2 else some state
  | .disconnect peerId => if state.peer peerId = .connected then state.disconnect peerId else some state
  | .setReputation peerId value =>
    if state.peer peerId = .unknown then some state else some (state.setReputation peerId value)
  | .addReputation peerId modifier =>
    if state.peer peerId = .unknown then some state else some (state.addReputation peerId modifier)
  | .setPriorityGroup groupId peers => state.setPriorityGroup groupId peers
  | .addToPriorityGroup groupId peerId => state.addToPriorityGroup groupId peerId
  | .removeFromPriorityGroup groupId peerId => state.removeFromPriorityGroup groupId peerId
  | .setPriorityOnly priority => some (state.setPriorityOnly priority)

end Call

variable {PeerId GroupId : Type} [DecidableEq PeerId] [DecidableEq GroupId]

/-- The calls one after the other from `new`; `none` is a panic. -/
def run (inPeers outPeers : Nat) (priorityOnly : Bool) (calls : List (Call PeerId GroupId)) :
    Option (PeersState PeerId GroupId) :=
  calls.foldlM Call.perform (PeersState.new inPeers outPeers priorityOnly)

end OffchainStorage.Peerset
