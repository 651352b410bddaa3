import Mathlib
import OffchainStorage.Lib.AListFold
import OffchainStorage.Lib.Transition

/-!
# Messages held until their blocks are imported

`UntilImported` wraps the stream of incoming GRANDPA messages and holds each
message back until every block its votes target is known to the client.  A
message is split by `schedule_wait` into waits on the blocks it does not know
yet, kept in `pending` by block hash; an import notification for a block, or
the periodic check of `pending` against the block-status oracle, completes the
waits on it, and `wait_completed` turns a completed wait back into a message.
For commits and catch-up messages (`BlockGlobalMessage`) the waits of one
message share a counter and the message itself, and the last wait to
complete takes the message.

The stream is a machine over five events: an input, the import of a block
(the oracle learns its number), an import notification, the periodic check,
and `poll` returning the front of `ready`.  `global_message_released_iff_known`
states when a global message comes out of it.
-/

namespace OffchainStorage.Grandpa

open Transition

variable {H N B W σ : Type}

/-! ## Messages and their targets -/

/-- The target of a vote, `(target_hash, target_number)`. -/
structure Target (H N : Type) where
  hash : H
  number : N
deriving DecidableEq

/-- `voter::CommunicationIn`: a compact commit or a catch-up message, with the
targets of its votes. -/
inductive CommunicationIn (H N : Type) where
  | commit (round : Nat) (precommits : List (Target H N))
  | catchUp (round : Nat) (prevotes precommits : List (Target H N))
deriving DecidableEq

/-- The targets `schedule_wait` walks: the precommits of a commit, the
prevotes and then the precommits of a catch-up message. -/
def CommunicationIn.targets : CommunicationIn H N → List (Target H N)
  | .commit _ precommits => precommits
  | .catchUp _ prevotes precommits => prevotes ++ precommits

/-! ## The stream -/

/-- `BlockUntilImported`: how `schedule_wait` splits a message into waits on
blocks and messages ready at once, and what `wait_completed` makes of a wait
once the number of its block is known.  What the waits of one message share
is kept in `σ`. -/
structure BlockUntilImported (H N B W σ : Type) where
  scheduleWait : (H → Option N) → B → σ → σ × List (H × W) × List B
  waitCompleted : W → N → σ → σ × Option B

/-- `UntilImported`.  The oracle `status_check` is the map `status` from a
hash to the number of the block, if known; `shared` is what the waits share,
and `yielded` are the messages `poll` has returned so far. -/
structure UntilImported (H N B W σ : Type) where
  status : H → Option N
  ready : List B
  pending : AList fun _ : H => List W
  shared : σ
  yielded : List B

/-- The events the stream reacts to. -/
inductive Event (H N B : Type) where
  | input (message : B)
  | blockImported (hash : H) (number : N)
  | importNotification (hash : H) (number : N)
  | checkPending
  | pollReady

/-- The messages of the inputs among `events`, in order. -/
def Event.inputs : List (Event H N B) → List B :=
  List.filterMap fun
    | .input message => some message
    | _ => none

/-- What the stream learns of the number of a block at an event: an import
notification for the block, or the periodic check while the oracle knows
it. -/
def Event.observation [DecidableEq H] (s : UntilImported H N B W σ) (hash : H) :
    Event H N B → Option N
  | .importNotification imported number => if imported = hash then some number else none
  | .checkPending => s.status hash
  | _ => none

namespace UntilImported

section Operations

variable [DecidableEq H] (blocking : BlockUntilImported H N B W σ)

/-- `UntilImported::new`, over an oracle that knows `status`. -/
def new (status : H → Option N) (shared : σ) : UntilImported H N B W σ :=
  ⟨status, [], ∅, shared, []⟩

/-- The `wait` closure of `poll`:
`pending.entry(hash).or_insert_with(..).push(wait)`. -/
def wait (pending : AList fun _ : H => List W) (hash : H) (handle : W) :
    AList fun _ : H => List W :=
  pending.upsert hash fun waits => waits.getD [] ++ [handle]

/-- A new input: `schedule_wait` with the two closures of `poll`. -/
def pushInput (s : UntilImported H N B W σ) (input : B) : UntilImported H N B W σ :=
  let scheduled := blocking.scheduleWait s.status input s.shared
  { s with
      pending := scheduled.2.1.foldl (fun pending handle => wait pending handle.1 handle.2) s.pending
      shared := scheduled.1
      ready := s.ready ++ scheduled.2.2 }

/-- `wait_completed` of each of `waits` in order, with the messages they
return (the `filter_map` that `ready.extend` consumes). -/
def completeAll (canonNumber : N) : List W → σ → σ × List B
  | [], shared => (shared, [])
  | handle :: waits, shared =>
    let completed := blocking.waitCompleted handle canonNumber shared
    let rest := completeAll canonNumber waits completed.1
    (rest.1, completed.2.toList ++ rest.2)

/-- `pending.remove(hash)` and the completion of the removed waits with the
block's number. -/
def completeWaits (s : UntilImported H N B W σ) (hash : H) (canonNumber : N) :
    UntilImported H N B W σ :=
  match s.pending.lookup hash with
  | none => s
  | some waits =>
    let completed := completeAll blocking canonNumber waits s.shared
    { s with
        pending := s.pending.erase hash
        shared := completed.1
        ready := s.ready ++ completed.2 }

/-- `known_keys`: the hashes of `pending` the oracle knows, with their
numbers. -/
def knownKeys (s : UntilImported H N B W σ) : List (H × N) :=
  s.pending.keys.filterMap fun hash => (s.status hash).map (hash, ·)

/-- The periodic check of `pending`: every wait on a block the oracle knows
completes. -/
def checkPending (s : UntilImported H N B W σ) : UntilImported H N B W σ :=
  (knownKeys s).foldl (fun s known => completeWaits blocking s known.1 known.2) s

/-- The client imports a block: the oracle learns its number, and keeps the
number of a block it already knows. -/
def blockImported (s : UntilImported H N B W σ) (hash : H) (number : N) :
    UntilImported H N B W σ :=
  { s with status := Function.update s.status hash (some ((s.status hash).getD number)) }

/-- `ready.pop_front()`: `poll` returns the oldest ready message. -/
def pollReady (s : UntilImported H N B W σ) : UntilImported H N B W σ :=
  match s.ready with
  | [] => s
  | message :: rest => { s with ready := rest, yielded := s.yielded ++ [message] }

/-- One event. -/
def step : Event H N B → UntilImported H N B W σ → UntilImported H N B W σ
  | .input message, s => pushInput blocking s message
  | .blockImported hash number, s => blockImported s hash number
  | .importNotification hash number, s => completeWaits blocking s hash number
  | .checkPending, s => checkPending blocking s
  | .pollReady, s => pollReady s

/-- What the stream has emitted: the messages `poll` returned, then those
still ready, in the order `poll` returns them. -/
def emitted (s : UntilImported H N B W σ) : List B :=
  s.yielded ++ s.ready

/-- The number the stream first learns for a block over `events` from `s`. -/
def firstSeen : UntilImported H N B W σ → List (Event H N B) → H → Option N
  | _, [], _ => none
  | s, event :: events, hash =>
    (event.observation s hash).or (firstSeen (step blocking event s) events hash)

end Operations

section Emitted

variable [DecidableEq H] (blocking : BlockUntilImported H N B W σ)

theorem emitted_pushInput (s : UntilImported H N B W σ) (input : B) :
    emitted (pushInput blocking s input) =
      emitted s ++ (blocking.scheduleWait s.status input s.shared).2.2 := by
  simp [emitted, pushInput]

theorem emitted_completeWaits_isPrefix (s : UntilImported H N B W σ) (hash : H) (canonNumber : N) :
    emitted s <+: emitted (completeWaits blocking s hash canonNumber) := by
  cases looked : s.pending.lookup hash with
  | none => simp [completeWaits, looked]
  | some waits =>
    simp only [completeWaits, looked, emitted, ← List.append_assoc]
    exact List.prefix_append _ _

theorem emitted_foldl_completeWaits_prefix (keys : List (H × N)) (s : UntilImported H N B W σ) :
    emitted s <+: emitted (keys.foldl (fun s known => completeWaits blocking s known.1 known.2) s) := by
  induction keys generalizing s with
  | nil => exact List.prefix_refl _
  | cons known keys ih =>
    exact (emitted_completeWaits_isPrefix blocking s known.1 known.2).trans (ih _)

theorem completeWaits_of_lookup_none {s : UntilImported H N B W σ} {hash : H}
    (looked : s.pending.lookup hash = none) (canonNumber : N) :
    completeWaits blocking s hash canonNumber = s := by
  simp [completeWaits, looked]

theorem completeWaits_of_lookup_some {s : UntilImported H N B W σ} {hash : H} {waits : List W}
    (looked : s.pending.lookup hash = some waits) (canonNumber : N) :
    completeWaits blocking s hash canonNumber =
      { s with
          pending := s.pending.erase hash
          shared := (completeAll blocking canonNumber waits s.shared).1
          ready := s.ready ++ (completeAll blocking canonNumber waits s.shared).2 } := by
  simp [completeWaits, looked]

omit [DecidableEq H] in
theorem emitted_pollReady (s : UntilImported H N B W σ) : emitted (pollReady s) = emitted s := by
  rcases s with ⟨status, ready, pending, shared, yielded⟩
  cases ready with
  | nil => rfl
  | cons message rest => simp [pollReady, emitted]

/-- The stream never takes back what it emitted. -/
theorem emitted_step_isPrefix (event : Event H N B) (s : UntilImported H N B W σ) :
    emitted s <+: emitted (step blocking event s) := by
  cases event with
  | input message =>
    rw [step, emitted_pushInput]
    exact List.prefix_append _ _
  | blockImported hash number => exact List.prefix_refl _
  | importNotification hash number => exact emitted_completeWaits_isPrefix blocking s hash number
  | checkPending => exact emitted_foldl_completeWaits_prefix blocking _ s
  | pollReady =>
    rw [step, emitted_pollReady]

theorem emitted_perform_prefix (s : UntilImported H N B W σ) (events : List (Event H N B)) :
    emitted s <+: emitted (perform (step blocking) s events) := by
  induction events generalizing s with
  | nil => exact List.prefix_refl _
  | cons event events ih => exact (emitted_step_isPrefix blocking event s).trans (ih _)

end Emitted

end UntilImported

/-! ## Global messages -/

/-- The `Arc<(AtomicUsize, Mutex<Option<..>>)>` the waits of one global
message share: how many waits are still to complete, and the message until
the last one takes it. -/
structure Locked (B : Type) where
  count : Nat
  message : Option B

/-- The `Arc`s allocated so far, numbered in the order of their allocation. -/
structure Arcs (B : Type) where
  cells : Nat → Locked B
  allocated : Nat

/-- No `Arc` allocated. -/
def Arcs.empty : Arcs B :=
  ⟨fun _ => ⟨0, none⟩, 0⟩

/-- `Arc::new`. -/
def Arcs.alloc (arcs : Arcs B) (locked : Locked B) : Arcs B :=
  ⟨Function.update arcs.cells arcs.allocated locked, arcs.allocated + 1⟩

/-- A write through an `Arc`. -/
def Arcs.set (arcs : Arcs B) (index : Nat) (locked : Locked B) : Arcs B :=
  { arcs with cells := Function.update arcs.cells index locked }

/-- `BlockGlobalMessage`: a wait on one block of a global message, with the
message's `Arc` and the number its votes give the block. -/
structure BlockGlobalMessage (N : Type) where
  inner : Nat
  targetNumber : N

/-- What `schedule_wait` records of a hash in `checked_hashes`. -/
inductive KnownOrUnknown (N : Type) where
  | known (number : N)
  | unknown (number : N)

/-- `KnownOrUnknown::number`. -/
def KnownOrUnknown.number : KnownOrUnknown N → N
  | .known number => number
  | .unknown number => number

section Global

variable [DecidableEq H] [DecidableEq N]

/-- `query_known`: one vote's target checked against the hashes seen so far
and, for a new hash, against the oracle; `none` is the early exit that drops
the message. -/
def queryKnown (status : H → Option N) (checked : List (H × KnownOrUnknown N) × Nat)
    (target : Target H N) : Option (List (H × KnownOrUnknown N) × Nat) :=
  match checked.1.lookup target.hash with
  | some entry => if entry.number = target.number then some checked else none
  | none =>
    match status target.hash with
    | some number =>
      if number = target.number then some (checked.1 ++ [(target.hash, .known number)], checked.2)
      else none
    -- an unknown hash takes the vote's number, which then matches
    | none => some (checked.1 ++ [(target.hash, .unknown target.number)], checked.2 + 1)

/-- The entries of `checked_hashes` that wait, as targets. -/
def unknownTargets (checked : List (H × KnownOrUnknown N)) : List (Target H N) :=
  checked.filterMap fun entry =>
    match entry.2 with
    | .known _ => none
    | .unknown number => some ⟨entry.1, number⟩

/-- `BlockGlobalMessage::schedule_wait`: the message is dropped on a number
mismatch, ready when every target is known, and otherwise shared by one wait
on each unknown hash. -/
def BlockGlobalMessage.scheduleWait (status : H → Option N) (input : CommunicationIn H N)
    (arcs : Arcs (CommunicationIn H N)) :
    Arcs (CommunicationIn H N) × List (H × BlockGlobalMessage N) × List (CommunicationIn H N) :=
  match input.targets.foldlM (queryKnown status) ([], 0) with
  | none => (arcs, [], [])
  | some checked =>
    if checked.2 = 0 then (arcs, [], [input])
    else
      (arcs.alloc ⟨checked.2, some input⟩,
        (unknownTargets checked.1).map fun target => (target.hash, ⟨arcs.allocated, target.number⟩),
        [])

/-- The body of the compare-and-swap loop of `wait_completed` on the `Arc`:
the last wait takes the message, any other one decrements the count.  The
stream completes waits one at a time inside `poll`, so the swap succeeds at
its first attempt. -/
def Locked.complete (locked : Locked B) : Locked B × Option B :=
  if locked.count = 1 then ({ locked with message := none }, locked.message)
  else ({ locked with count := locked.count - 1 }, none)

/-- `BlockGlobalMessage::wait_completed`: on a number mismatch the wait
returns without decrementing the count, so that the message is never
returned. -/
def BlockGlobalMessage.waitCompleted (handle : BlockGlobalMessage N) (canonNumber : N)
    (arcs : Arcs B) : Arcs B × Option B :=
  if handle.targetNumber ≠ canonNumber then (arcs, none)
  else
    let completed := (arcs.cells handle.inner).complete
    (arcs.set handle.inner completed.1, completed.2)

/-- The waits of global messages. -/
def globalMessage :
    BlockUntilImported H N (CommunicationIn H N) (BlockGlobalMessage N) (Arcs (CommunicationIn H N)) :=
  ⟨BlockGlobalMessage.scheduleWait, BlockGlobalMessage.waitCompleted⟩

/-- The waits of single votes (`SignedMessage`), read through the target of
each vote: a vote is dropped when the oracle knows its block with another
number, and waits on its block when the oracle does not know it. -/
def signedMessage {V : Type} (target : V → Target H N) : BlockUntilImported H N V V Unit where
  scheduleWait status message _ :=
    match status (target message).hash with
    | some number => if number ≠ (target message).number then ((), [], []) else ((), [], [message])
    | none => ((), [((target message).hash, message)], [])
  waitCompleted message canonNumber _ :=
    if canonNumber ≠ (target message).number then ((), none) else ((), some message)

end Global

/-- `UntilGlobalMessageBlocksImported`. -/
abbrev UntilGlobalMessageBlocksImported (H N : Type) :=
  UntilImported H N (CommunicationIn H N) (BlockGlobalMessage N) (Arcs (CommunicationIn H N))

/-! ## The `Arc`s of global messages -/

section Arcs

variable {arcs : Arcs B}

@[simp]
theorem Arcs.alloc_allocated (locked : Locked B) : (arcs.alloc locked).allocated = arcs.allocated + 1 :=
  rfl

theorem Arcs.alloc_cells (locked : Locked B) (index : Nat) :
    (arcs.alloc locked).cells index = if index = arcs.allocated then locked else arcs.cells index :=
  Function.update_apply _ _ _ _

@[simp]
theorem Arcs.set_allocated (index : Nat) (locked : Locked B) : (arcs.set index locked).allocated = arcs.allocated :=
  rfl

theorem Arcs.set_cells (written : Nat) (locked : Locked B) (index : Nat) :
    (arcs.set written locked).cells index = if index = written then locked else arcs.cells index :=
  Function.update_apply _ _ _ _

/-- Every message held after a change of the `Arc`s was held before: the
messages only leave. -/
def Arcs.Drains (arcs after : Arcs B) : Prop :=
  ∀ index message, (after.cells index).message = some message → (arcs.cells index).message = some message

theorem Arcs.Drains.refl (arcs : Arcs B) : arcs.Drains arcs :=
  fun _ _ held => held

theorem Arcs.Drains.trans {middle after : Arcs B} (first : arcs.Drains middle) (second : middle.Drains after) :
    arcs.Drains after :=
  fun index message held => first index message (second index message held)

theorem Locked.complete_message (locked : Locked B) :
    locked.complete.1.message = locked.message ∨ locked.complete.1.message = none := by
  unfold Locked.complete
  by_cases last : locked.count = 1
  · simp [last]
  · simp [last]

theorem Locked.complete_released {locked : Locked B} {message : B} (released : locked.complete.2 = some message) :
    locked.message = some message := by
  unfold Locked.complete at released
  by_cases last : locked.count = 1
  · simpa [last] using released
  · simp [last] at released

variable [DecidableEq N] {handle : BlockGlobalMessage N} {canonNumber : N}

@[simp]
theorem waitCompleted_allocated :
    (BlockGlobalMessage.waitCompleted handle canonNumber arcs).1.allocated = arcs.allocated := by
  unfold BlockGlobalMessage.waitCompleted
  split <;> rfl

theorem waitCompleted_cells_of_ne {index : Nat} (different : index ≠ handle.inner) :
    (BlockGlobalMessage.waitCompleted handle canonNumber arcs).1.cells index = arcs.cells index := by
  unfold BlockGlobalMessage.waitCompleted
  split
  · rfl
  · simp [Arcs.set_cells, different]

theorem waitCompleted_cells_self :
    (BlockGlobalMessage.waitCompleted handle canonNumber arcs).1.cells handle.inner =
      if handle.targetNumber = canonNumber then (arcs.cells handle.inner).complete.1
      else arcs.cells handle.inner := by
  unfold BlockGlobalMessage.waitCompleted
  by_cases agrees : handle.targetNumber = canonNumber
  · simp [agrees, Arcs.set_cells]
  · simp [agrees]

theorem waitCompleted_released :
    (BlockGlobalMessage.waitCompleted handle canonNumber arcs).2 =
      if handle.targetNumber = canonNumber then (arcs.cells handle.inner).complete.2 else none := by
  unfold BlockGlobalMessage.waitCompleted
  by_cases agrees : handle.targetNumber = canonNumber
  · simp [agrees]
  · simp [agrees]

theorem waitCompleted_drains : arcs.Drains (BlockGlobalMessage.waitCompleted handle canonNumber arcs).1 := by
  intro index message held
  by_cases same : index = handle.inner
  · subst same
    rw [waitCompleted_cells_self] at held
    split at held
    · rcases Locked.complete_message (arcs.cells handle.inner) with kept | taken
      · rwa [← kept]
      · rw [taken] at held
        cases held
    · exact held
  · rwa [waitCompleted_cells_of_ne same] at held

theorem waitCompleted_released_held {message : B}
    (released : (BlockGlobalMessage.waitCompleted handle canonNumber arcs).2 = some message) :
    (arcs.cells handle.inner).message = some message := by
  rw [waitCompleted_released] at released
  split at released
  · exact Locked.complete_released released
  · cases released

end Arcs

section Completion

/-- The numbers of the waits of `cell` among `waits`. -/
def cellWaits (cell : Nat) (waits : List (BlockGlobalMessage N)) : List N :=
  waits.filterMap fun handle => if handle.inner = cell then some handle.targetNumber else none

theorem cellWaits_eq_nil_iff {cell : Nat} {waits : List (BlockGlobalMessage N)} :
    cellWaits cell waits = [] ↔ ∀ handle ∈ waits, handle.inner ≠ cell := by
  simp [cellWaits, List.filterMap_eq_nil_iff]

theorem cellWaits_cons (cell : Nat) (handle : BlockGlobalMessage N) (waits : List (BlockGlobalMessage N)) :
    cellWaits cell (handle :: waits) =
      (if handle.inner = cell then [handle.targetNumber] else []) ++ cellWaits cell waits := by
  by_cases own : handle.inner = cell
  · simp [cellWaits, own]
  · simp [cellWaits, own]

variable [DecidableEq H] [DecidableEq N] {canonNumber : N}

theorem completeAll_global_cons (handle : BlockGlobalMessage N) (waits : List (BlockGlobalMessage N))
    (arcs : Arcs (CommunicationIn H N)) :
    UntilImported.completeAll globalMessage canonNumber (handle :: waits) arcs =
      ((UntilImported.completeAll globalMessage canonNumber waits
          (BlockGlobalMessage.waitCompleted handle canonNumber arcs).1).1,
        (BlockGlobalMessage.waitCompleted handle canonNumber arcs).2.toList ++
          (UntilImported.completeAll globalMessage canonNumber waits
            (BlockGlobalMessage.waitCompleted handle canonNumber arcs).1).2) :=
  rfl

theorem completeAll_allocated (waits : List (BlockGlobalMessage N)) (arcs : Arcs (CommunicationIn H N)) :
    (UntilImported.completeAll globalMessage canonNumber waits arcs).1.allocated = arcs.allocated := by
  induction waits generalizing arcs with
  | nil => rfl
  | cons handle waits ih => rw [completeAll_global_cons, ih, waitCompleted_allocated]

theorem completeAll_drains (waits : List (BlockGlobalMessage N)) (arcs : Arcs (CommunicationIn H N)) :
    arcs.Drains (UntilImported.completeAll globalMessage canonNumber waits arcs).1 := by
  induction waits generalizing arcs with
  | nil => exact Arcs.Drains.refl arcs
  | cons handle waits ih =>
    rw [completeAll_global_cons]
    exact waitCompleted_drains.trans (ih _)

/-- A completed wait returns the message its `Arc` held. -/
theorem completeAll_released {waits : List (BlockGlobalMessage N)} {arcs : Arcs (CommunicationIn H N)}
    {message : CommunicationIn H N}
    (released : message ∈ (UntilImported.completeAll globalMessage canonNumber waits arcs).2) :
    ∃ handle ∈ waits, (arcs.cells handle.inner).message = some message := by
  induction waits generalizing arcs with
  | nil => cases released
  | cons handle waits ih =>
    rw [completeAll_global_cons, List.mem_append] at released
    rcases released with first | later
    · exact ⟨handle, List.mem_cons_self, waitCompleted_released_held (Option.mem_toList.mp first)⟩
    · obtain ⟨other, member, held⟩ := ih later
      exact ⟨other, List.mem_cons_of_mem _ member, waitCompleted_drains _ _ held⟩

theorem completeAll_cells_of_forall_ne {cell : Nat} {waits : List (BlockGlobalMessage N)}
    (others : ∀ handle ∈ waits, handle.inner ≠ cell) (arcs : Arcs (CommunicationIn H N)) :
    (UntilImported.completeAll globalMessage canonNumber waits arcs).1.cells cell = arcs.cells cell := by
  induction waits generalizing arcs with
  | nil => rfl
  | cons handle waits ih =>
    rw [completeAll_global_cons, ih (fun other member => others other (List.mem_cons_of_mem _ member)),
      waitCompleted_cells_of_ne (Ne.symm (others handle List.mem_cons_self))]

/-- The one wait of `cell` among `waits` completes the cell alone: the other
waits leave it, and return no message that only the cell holds. -/
theorem completeAll_single {cell : Nat} {number : N} {message : CommunicationIn H N} :
    ∀ {waits : List (BlockGlobalMessage N)} {arcs : Arcs (CommunicationIn H N)},
    cellWaits cell waits = [number] →
    (∀ index ≠ cell, (arcs.cells index).message ≠ some message) →
    (UntilImported.completeAll globalMessage canonNumber waits arcs).1.cells cell =
        (if number = canonNumber then (arcs.cells cell).complete.1 else arcs.cells cell) ∧
      (UntilImported.completeAll globalMessage canonNumber waits arcs).2.count message =
        (if number = canonNumber then (arcs.cells cell).complete.2.toList.count message else 0) := by
  intro waits
  induction waits with
  | nil => intro arcs single; cases single
  | cons handle waits ih =>
    intro arcs single onlyAt
    rw [cellWaits_cons] at single
    rw [completeAll_global_cons, List.count_append]
    by_cases own : handle.inner = cell
    · simp only [own, if_true, List.singleton_append, List.cons.injEq] at single
      obtain ⟨numbered, rest⟩ := single
      subst own numbered
      have othersLeft := cellWaits_eq_nil_iff.mp rest
      have unchanged : (UntilImported.completeAll globalMessage canonNumber waits
          (BlockGlobalMessage.waitCompleted handle canonNumber arcs).1).1.cells _ = _ :=
        completeAll_cells_of_forall_ne othersLeft (BlockGlobalMessage.waitCompleted handle canonNumber arcs).1
      have restSilent :
          (UntilImported.completeAll globalMessage canonNumber waits
            (BlockGlobalMessage.waitCompleted handle canonNumber arcs).1).2.count message = 0 := by
        apply List.count_eq_zero.mpr
        intro released
        obtain ⟨other, member, held⟩ := completeAll_released released
        exact onlyAt other.inner (othersLeft other member) (waitCompleted_drains _ _ held)
      rw [unchanged, waitCompleted_cells_self, restSilent, waitCompleted_released]
      by_cases agrees : handle.targetNumber = canonNumber
      · simp [agrees]
      · simp [agrees]
    · simp only [own, if_false, List.nil_append] at single
      have headSilent : (BlockGlobalMessage.waitCompleted handle canonNumber arcs).2.toList.count message = 0 := by
        apply List.count_eq_zero.mpr
        intro released
        exact onlyAt handle.inner own (waitCompleted_released_held (Option.mem_toList.mp released))
      have stillOnlyAt : ∀ index ≠ cell,
          ((BlockGlobalMessage.waitCompleted handle canonNumber arcs).1.cells index).message ≠ some message :=
        fun index different held => onlyAt index different (waitCompleted_drains _ _ held)
      rw [headSilent, Nat.zero_add, (ih single stillOnlyAt).2, (ih single stillOnlyAt).1,
        waitCompleted_cells_of_ne (Ne.symm own)]
      exact ⟨rfl, rfl⟩

end Completion

/-! ## What `schedule_wait` accepts -/

section Checking

variable [DecidableEq H] [DecidableEq N] {status : H → Option N}

/-- The targets a global message can be released with against the oracle
`status`: every target the oracle knows has the vote's number, and no two
votes give one hash two numbers. -/
def Accepted (status : H → Option N) (targets : List (Target H N)) : Prop :=
  (∀ target ∈ targets, status target.hash = some target.number ∨ status target.hash = none) ∧
    ∀ first ∈ targets, ∀ second ∈ targets, first.hash = second.hash → first.number = second.number

omit [DecidableEq H] [DecidableEq N] in
theorem Accepted.mono {targets fewer : List (Target H N)} (accepted : Accepted status targets)
    (within : ∀ target ∈ fewer, target ∈ targets) : Accepted status fewer :=
  ⟨fun target member => accepted.1 target (within target member),
    fun first firstMember second secondMember =>
      accepted.2 first (within first firstMember) second (within second secondMember)⟩

omit [DecidableEq H] [DecidableEq N] in
/-- A new target on a hash none of `seen` has keeps the targets accepted when
the oracle does not know the hash or knows it with the target's number. -/
theorem Accepted.append_fresh {seen : List (Target H N)} {target : Target H N}
    (accepted : Accepted status seen) (fresh : ∀ other ∈ seen, other.hash ≠ target.hash)
    (known : status target.hash = some target.number ∨ status target.hash = none) :
    Accepted status (seen ++ [target]) := by
  constructor
  · intro other member
    rcases List.mem_append.mp member with old | new
    · exact accepted.1 other old
    · rw [List.mem_singleton.mp new]
      exact known
  · intro first firstMember second secondMember sameHash
    rcases List.mem_append.mp firstMember with firstOld | firstNew <;>
      rcases List.mem_append.mp secondMember with secondOld | secondNew
    · exact accepted.2 first firstOld second secondOld sameHash
    · rw [List.mem_singleton.mp secondNew] at sameHash
      exact absurd sameHash (fresh first firstOld)
    · rw [List.mem_singleton.mp firstNew] at sameHash
      exact absurd sameHash.symm (fresh second secondOld)
    · rw [List.mem_singleton.mp firstNew, List.mem_singleton.mp secondNew]

/-- What `checked_hashes` and `unknown_count` hold after the targets `seen`. -/
structure Checked (status : H → Option N) (seen : List (Target H N))
    (checked : List (H × KnownOrUnknown N) × Nat) : Prop where
  accepted : Accepted status seen
  keys : ∀ hash, (checked.1.lookup hash).isSome ↔ ∃ target ∈ seen, target.hash = hash
  numbers : ∀ target ∈ seen, ∀ entry, checked.1.lookup target.hash = some entry → entry.number = target.number
  unknown : ∀ target, target ∈ unknownTargets checked.1 ↔ target ∈ seen ∧ status target.hash = none
  distinct : ((unknownTargets checked.1).map Target.hash).Nodup
  count : checked.2 = (unknownTargets checked.1).length

omit [DecidableEq N] in
theorem Checked.initial : Checked status [] ([], 0) where
  accepted := ⟨nofun, nofun⟩
  keys := by simp
  numbers := nofun
  unknown := by simp [unknownTargets]
  distinct := List.nodup_nil
  count := rfl

omit [DecidableEq H] [DecidableEq N] in
theorem unknownTargets_append_known (checked : List (H × KnownOrUnknown N)) (hash : H) (number : N) :
    unknownTargets (checked ++ [(hash, .known number)]) = unknownTargets checked := by
  simp [unknownTargets]

omit [DecidableEq H] [DecidableEq N] in
theorem unknownTargets_append_unknown (checked : List (H × KnownOrUnknown N)) (target : Target H N) :
    unknownTargets (checked ++ [(target.hash, .unknown target.number)]) = unknownTargets checked ++ [target] := by
  simp [unknownTargets]

omit [DecidableEq N] in
theorem lookup_append_of_isSome {checked : List (H × KnownOrUnknown N)} {hash : H}
    (present : (checked.lookup hash).isSome) (added : H × KnownOrUnknown N) :
    (checked ++ [added]).lookup hash = checked.lookup hash := by
  rw [List.lookup_append]
  cases looked : checked.lookup hash with
  | none => rw [looked] at present; cases present
  | some entry => rfl

omit [DecidableEq N] in
theorem lookup_append_fresh {checked : List (H × KnownOrUnknown N)} {hash : H}
    (looked : checked.lookup hash = none) (entry : KnownOrUnknown N) :
    (checked ++ [(hash, entry)]).lookup hash = some entry := by
  simp [List.lookup_append, looked]

omit [DecidableEq N] in
theorem isSome_lookup_append_singleton (checked : List (H × KnownOrUnknown N)) (hash : H)
    (added : H × KnownOrUnknown N) :
    ((checked ++ [added]).lookup hash).isSome ↔ (checked.lookup hash).isSome ∨ hash = added.1 := by
  obtain ⟨key, entry⟩ := added
  by_cases same : hash = key
  · simp [List.lookup_append, same]
  · have differs : (hash == key) = false := beq_false_of_ne same
    simp [List.lookup_append, List.lookup_cons, same, differs]

omit [DecidableEq N] in
/-- The first target on a hash adds the hash to the keys of `checked_hashes`. -/
theorem Checked.keys_append {seen : List (Target H N)} {checked : List (H × KnownOrUnknown N) × Nat}
    (prior : Checked status seen checked) (target : Target H N) (entry : KnownOrUnknown N) (hash : H) :
    ((checked.1 ++ [(target.hash, entry)]).lookup hash).isSome ↔
      ∃ other ∈ seen ++ [target], other.hash = hash := by
  rw [isSome_lookup_append_singleton, prior.keys hash]
  constructor
  · rintro (⟨other, member, otherHash⟩ | named)
    · exact ⟨other, List.mem_append_left _ member, otherHash⟩
    · exact ⟨target, by simp, named.symm⟩
  · rintro ⟨other, member, otherHash⟩
    rcases List.mem_append.mp member with old | new
    · exact .inl ⟨other, old, otherHash⟩
    · rw [List.mem_singleton.mp new] at otherHash
      exact .inr otherHash.symm

omit [DecidableEq N] in
/-- The first target on a hash records the target's number. -/
theorem Checked.numbers_append {seen : List (Target H N)} {checked : List (H × KnownOrUnknown N) × Nat}
    (prior : Checked status seen checked) {target : Target H N}
    (looked : checked.1.lookup target.hash = none) {entry : KnownOrUnknown N}
    (numbered : entry.number = target.number) :
    ∀ other ∈ seen ++ [target], ∀ found,
      (checked.1 ++ [(target.hash, entry)]).lookup other.hash = some found → found.number = other.number := by
  intro other member found located
  rcases List.mem_append.mp member with old | new
  · rw [lookup_append_of_isSome ((prior.keys other.hash).mpr ⟨other, old, rfl⟩)] at located
    exact prior.numbers other old found located
  · rw [List.mem_singleton.mp new, lookup_append_fresh looked] at located
    rw [List.mem_singleton.mp new, ← Option.some.inj located]
    exact numbered

omit [DecidableEq N] in
theorem Checked.fresh {seen : List (Target H N)} {checked : List (H × KnownOrUnknown N) × Nat}
    (prior : Checked status seen checked) {target : Target H N}
    (looked : checked.1.lookup target.hash = none) : ∀ other ∈ seen, other.hash ≠ target.hash := by
  intro other member sameHash
  have present := (prior.keys target.hash).mpr ⟨other, member, sameHash⟩
  rw [looked] at present
  cases present

omit [DecidableEq N] in
/-- A target on a hash already checked: the message goes on when the votes
agree on its number. -/
theorem Checked.query_seen {seen : List (Target H N)} {checked : List (H × KnownOrUnknown N) × Nat}
    (prior : Checked status seen checked) {target : Target H N} {entry : KnownOrUnknown N}
    (looked : checked.1.lookup target.hash = some entry) :
    (entry.number = target.number → Checked status (seen ++ [target]) checked) ∧
      (entry.number ≠ target.number → ¬ Accepted status (seen ++ [target])) := by
  obtain ⟨earlier, member, sameHash⟩ := (prior.keys target.hash).mp (by simp [looked])
  have numbered := prior.numbers earlier member entry (sameHash ▸ looked)
  constructor
  · intro agrees
    have sameTarget : ∀ other ∈ seen, other.hash = target.hash → other.number = target.number :=
      fun other otherMember otherHash =>
        (prior.accepted.2 other otherMember earlier member (otherHash.trans sameHash.symm)).trans
          (numbered.symm.trans agrees)
    refine ⟨⟨?_, ?_⟩, ?_, ?_, ?_, prior.distinct, prior.count⟩
    · intro other otherMember
      rcases List.mem_append.mp otherMember with old | new
      · exact prior.accepted.1 other old
      · rw [List.mem_singleton.mp new, ← sameHash, ← sameTarget earlier member sameHash]
        exact prior.accepted.1 earlier member
    · intro first firstMember second secondMember hashes
      rcases List.mem_append.mp firstMember with firstOld | firstNew <;>
        rcases List.mem_append.mp secondMember with secondOld | secondNew
      · exact prior.accepted.2 first firstOld second secondOld hashes
      · rw [List.mem_singleton.mp secondNew] at hashes ⊢
        exact sameTarget first firstOld hashes
      · rw [List.mem_singleton.mp firstNew] at hashes ⊢
        exact (sameTarget second secondOld hashes.symm).symm
      · rw [List.mem_singleton.mp firstNew, List.mem_singleton.mp secondNew]
    · intro hash
      rw [prior.keys hash]
      constructor
      · rintro ⟨other, otherMember, otherHash⟩
        exact ⟨other, List.mem_append_left _ otherMember, otherHash⟩
      · rintro ⟨other, otherMember, otherHash⟩
        rcases List.mem_append.mp otherMember with old | new
        · exact ⟨other, old, otherHash⟩
        · rw [List.mem_singleton.mp new] at otherHash
          exact ⟨earlier, member, sameHash.trans otherHash⟩
    · intro other otherMember found located
      rcases List.mem_append.mp otherMember with old | new
      · exact prior.numbers other old found located
      · rw [List.mem_singleton.mp new, looked] at located
        rw [List.mem_singleton.mp new, ← Option.some.inj located]
        exact agrees
    · intro other
      rw [prior.unknown other]
      constructor
      · rintro ⟨old, unknown⟩
        exact ⟨List.mem_append_left _ old, unknown⟩
      · rintro ⟨otherMember, unknown⟩
        rcases List.mem_append.mp otherMember with old | new
        · exact ⟨old, unknown⟩
        · rw [List.mem_singleton.mp new] at unknown ⊢
          have same : earlier = target := by
            cases earlier
            cases target
            simp only at sameHash
            simp only [Target.mk.injEq]
            exact ⟨sameHash, sameTarget _ member sameHash⟩
          rw [← same] at unknown ⊢
          exact ⟨member, unknown⟩
  · intro disagrees accepted
    exact disagrees (numbered.trans
      (accepted.2 earlier (List.mem_append_left _ member) target (by simp) sameHash))

omit [DecidableEq N] in
/-- A target on a new hash the oracle knows: the message goes on when the
oracle has the vote's number. -/
theorem Checked.query_known {seen : List (Target H N)} {checked : List (H × KnownOrUnknown N) × Nat}
    (prior : Checked status seen checked) {target : Target H N}
    (looked : checked.1.lookup target.hash = none) {number : N} (known : status target.hash = some number) :
    (number = target.number →
        Checked status (seen ++ [target]) (checked.1 ++ [(target.hash, .known number)], checked.2)) ∧
      (number ≠ target.number → ¬ Accepted status (seen ++ [target])) := by
  constructor
  · intro agrees
    refine ⟨prior.accepted.append_fresh (prior.fresh looked) (.inl (agrees ▸ known)),
      prior.keys_append target _, prior.numbers_append looked agrees, ?_, ?_, ?_⟩
    · intro other
      rw [unknownTargets_append_known, prior.unknown other, List.mem_append, List.mem_singleton]
      constructor
      · rintro ⟨old, unknown⟩
        exact ⟨.inl old, unknown⟩
      · rintro ⟨old | rfl, unknown⟩
        · exact ⟨old, unknown⟩
        · rw [known] at unknown
          cases unknown
    · rw [unknownTargets_append_known]
      exact prior.distinct
    · rw [unknownTargets_append_known]
      exact prior.count
  · intro disagrees accepted
    rcases accepted.1 target (by simp) with agrees | unknown
    · rw [known] at agrees
      exact disagrees (Option.some.inj agrees)
    · rw [known] at unknown
      cases unknown

omit [DecidableEq N] in
/-- A target on a new hash the oracle does not know: it becomes a wait. -/
theorem Checked.query_unknown {seen : List (Target H N)} {checked : List (H × KnownOrUnknown N) × Nat}
    (prior : Checked status seen checked) {target : Target H N}
    (looked : checked.1.lookup target.hash = none) (unknown : status target.hash = none) :
    Checked status (seen ++ [target]) (checked.1 ++ [(target.hash, .unknown target.number)], checked.2 + 1) := by
  refine ⟨prior.accepted.append_fresh (prior.fresh looked) (.inr unknown), prior.keys_append target _,
    prior.numbers_append looked rfl, ?_, ?_, ?_⟩
  · intro other
    rw [unknownTargets_append_unknown, List.mem_append, List.mem_singleton, prior.unknown other,
      List.mem_append, List.mem_singleton]
    constructor
    · rintro (⟨old, unknownOld⟩ | rfl)
      · exact ⟨.inl old, unknownOld⟩
      · exact ⟨.inr rfl, unknown⟩
    · rintro ⟨old | rfl, unknownOther⟩
      · exact .inl ⟨old, unknownOther⟩
      · exact .inr rfl
  · rw [unknownTargets_append_unknown, List.map_append, List.nodup_append]
    refine ⟨prior.distinct, List.nodup_singleton _, ?_⟩
    intro hash waiting other added
    obtain ⟨earlier, member, rfl⟩ := List.mem_map.mp waiting
    rw [List.map_singleton, List.mem_singleton] at added
    rw [added]
    exact prior.fresh looked earlier ((prior.unknown earlier).mp member).1
  · rw [unknownTargets_append_unknown, List.length_append, List.length_singleton, prior.count]

/-- One `query_known`: the early exit happens exactly when the targets so far
are not accepted. -/
theorem Checked.query {seen : List (Target H N)} {checked : List (H × KnownOrUnknown N) × Nat}
    (prior : Checked status seen checked) (target : Target H N) :
    (queryKnown status checked target = none → ¬ Accepted status (seen ++ [target])) ∧
      ∀ next, queryKnown status checked target = some next → Checked status (seen ++ [target]) next := by
  unfold OffchainStorage.Grandpa.queryKnown
  cases looked : checked.1.lookup target.hash with
  | some entry =>
    have branches := prior.query_seen looked
    by_cases agrees : entry.number = target.number
    · simp only [agrees, if_true, reduceCtorEq, false_implies, Option.some.injEq, true_and]
      rintro next rfl
      exact branches.1 agrees
    · simp only [agrees, if_false, reduceCtorEq, false_implies, and_true, forall_const]
      exact branches.2 agrees
  | none =>
    cases known : status target.hash with
    | some number =>
      have branches := prior.query_known looked known
      by_cases agrees : number = target.number
      · simp only [agrees, if_true, reduceCtorEq, false_implies, Option.some.injEq, true_and]
        rintro next rfl
        exact agrees ▸ branches.1 agrees
      · simp only [agrees, if_false, reduceCtorEq, false_implies, and_true, forall_const]
        exact branches.2 agrees
    | none =>
      simp only [reduceCtorEq, false_implies, Option.some.injEq, true_and]
      rintro next rfl
      exact prior.query_unknown looked known

/-- The loop of `schedule_wait` over the targets: it exits early exactly when
the targets are not accepted, and otherwise leaves `checked_hashes` and
`unknown_count` as `Checked` says. -/
theorem Checked.foldlM :
    ∀ {targets seen : List (Target H N)} {checked : List (H × KnownOrUnknown N) × Nat},
      Checked status seen checked →
      (targets.foldlM (queryKnown status) checked = none → ¬ Accepted status (seen ++ targets)) ∧
        ∀ result, targets.foldlM (queryKnown status) checked = some result →
          Checked status (seen ++ targets) result := by
  intro targets
  induction targets with
  | nil =>
    intro seen checked prior
    simp only [List.foldlM_nil, List.append_nil]
    exact ⟨nofun, fun result found => Option.some.inj found ▸ prior⟩
  | cons target targets ih =>
    intro seen checked prior
    have queried := prior.query target
    rw [List.foldlM_cons]
    cases query : OffchainStorage.Grandpa.queryKnown status checked target with
    | none =>
      refine ⟨fun _ accepted => queried.1 query (accepted.mono ?_), nofun⟩
      intro other member
      rcases List.mem_append.mp member with old | new
      · exact List.mem_append_left _ old
      · rw [List.mem_singleton.mp new]
        simp
    | some next =>
      have continued := ih (queried.2 next query)
      rw [List.append_assoc, List.singleton_append] at continued
      exact continued

end Checking

/-! ## The waits of one message in `pending` -/

section Waits

variable [DecidableEq H]

/-- The numbers of the waits of `cell` on `hash` in `pending`. -/
def cellHandles (pending : AList fun _ : H => List (BlockGlobalMessage N)) (cell : Nat) (hash : H) : List N :=
  cellWaits cell ((pending.lookup hash).getD [])

theorem cellWaits_append (cell : Nat) (first second : List (BlockGlobalMessage N)) :
    cellWaits cell (first ++ second) = cellWaits cell first ++ cellWaits cell second :=
  List.filterMap_append

theorem cellHandles_wait (pending : AList fun _ : H => List (BlockGlobalMessage N)) (hash : H)
    (handle : BlockGlobalMessage N) (cell : Nat) (looked : H) :
    cellHandles (UntilImported.wait pending hash handle) cell looked =
      cellHandles pending cell looked ++ if looked = hash then cellWaits cell [handle] else [] := by
  unfold cellHandles UntilImported.wait
  by_cases same : looked = hash
  · subst same
    rw [AList.lookup_upsert_self, Option.getD_some, cellWaits_append, if_pos rfl]
  · rw [AList.lookup_upsert_of_ne _ _ same, if_neg same, List.append_nil]

/-- The waits `schedule_wait` adds to `pending`, read per hash. -/
theorem cellHandles_foldl_wait (waits : List (H × BlockGlobalMessage N))
    (pending : AList fun _ : H => List (BlockGlobalMessage N)) (cell : Nat) (looked : H) :
    cellHandles (waits.foldl (fun pending handle => UntilImported.wait pending handle.1 handle.2) pending)
        cell looked =
      cellHandles pending cell looked ++ cellWaits cell ((waits.filter (·.1 = looked)).map Prod.snd) := by
  induction waits generalizing pending with
  | nil => simp [cellWaits]
  | cons handle waits ih =>
    rw [List.foldl_cons, ih, cellHandles_wait]
    by_cases same : handle.1 = looked
    · subst same
      simp only [if_true, List.filter_cons, decide_true, List.map_cons, List.append_assoc]
      rw [← cellWaits_append, List.singleton_append]
    · rw [if_neg (Ne.symm same), List.append_nil]
      simp [same]

theorem cellHandles_erase_self (pending : AList fun _ : H => List (BlockGlobalMessage N)) (cell : Nat)
    (hash : H) : cellHandles (pending.erase hash) cell hash = [] := by
  simp [cellHandles, AList.lookup_erase, cellWaits]

theorem cellHandles_erase_of_ne (pending : AList fun _ : H => List (BlockGlobalMessage N)) (cell : Nat)
    {hash looked : H} (different : looked ≠ hash) :
    cellHandles (pending.erase hash) cell looked = cellHandles pending cell looked := by
  rw [cellHandles, cellHandles, AList.lookup_erase_ne different]

theorem cellHandles_of_lookup {pending : AList fun _ : H => List (BlockGlobalMessage N)} {hash : H}
    {waits : List (BlockGlobalMessage N)} (looked : pending.lookup hash = some waits) (cell : Nat) :
    cellHandles pending cell hash = cellWaits cell waits := by
  rw [cellHandles, looked, Option.getD_some]

theorem cellHandles_of_lookup_none {pending : AList fun _ : H => List (BlockGlobalMessage N)} {hash : H}
    (looked : pending.lookup hash = none) (cell : Nat) : cellHandles pending cell hash = [] := by
  rw [cellHandles, looked]
  rfl

/-- The lookups of `known_keys`: the oracle's number of every key it knows. -/
theorem lookup_filterMap_keys (status : H → Option N) (keys : List H) (hash : H) :
    (keys.filterMap fun key => (status key).map (key, ·)).lookup hash =
      if hash ∈ keys then status hash else none := by
  induction keys with
  | nil => simp
  | cons key keys ih =>
    by_cases same : hash = key
    · subst same
      cases known : status hash with
      | none => simp [known, ih]
      | some number => simp [known]
    · have differs : (hash == key) = false := beq_false_of_ne same
      cases known : status key with
      | none => simp [known, ih, same]
      | some number => simp [known, List.lookup_cons, differs, ih, same]

end Waits

/-! ## Following one global message -/

section Tracking

variable [DecidableEq H] [DecidableEq N]

/-- Whether a target is still waited for once the stream learns `observed`. -/
def Target.waiting (observed : H → Option N) (target : Target H N) : Bool :=
  (observed target.hash).isNone

/-- Whether what the stream learns of a target's block agrees with the
target. -/
def Target.agrees (observed : H → Option N) (target : Target H N) : Bool :=
  (observed target.hash).all fun number => decide (number = target.number)

omit [DecidableEq H] [DecidableEq N] in
theorem filter_waiting_or (first second : H → Option N) (targets : List (Target H N)) :
    targets.filter (Target.waiting fun hash => (first hash).or (second hash)) =
      (targets.filter (Target.waiting first)).filter (Target.waiting second) := by
  rw [List.filter_filter]
  apply List.filter_congr
  intro target _
  simp only [Target.waiting, Option.isNone_or, Bool.and_comm]

omit [DecidableEq H] in
theorem all_agrees_or (first second : H → Option N) (targets : List (Target H N)) :
    targets.all (Target.agrees fun hash => (first hash).or (second hash)) =
      (targets.all (Target.agrees first) && (targets.filter (Target.waiting first)).all (Target.agrees second)) := by
  rw [List.all_filter, Bool.eq_iff_iff, Bool.and_eq_true, List.all_eq_true, List.all_eq_true,
    List.all_eq_true, ← forall₂_and]
  apply forall₂_congr
  intro target _
  unfold Target.agrees Target.waiting
  cases learned : first target.hash with
  | none => simp [learned]
  | some number => simp [learned]

/-- Where the global message `message` stands after its arrival, `cell` being
its `Arc`: `left` are the targets it still waits for, and `exact` says that no
wait of it has failed.  While the `Arc` holds the message, its count is the
number of waits left, or more once a wait has failed; once it no longer does,
the message has been emitted once, or never will be. -/
structure Tracked (s : UntilGlobalMessageBlocksImported H N) (cell : Nat) (message : CommunicationIn H N)
    (left : List (Target H N)) (exact : Bool) : Prop where
  onlyAt : ∀ index ≠ cell, (s.shared.cells index).message ≠ some message
  distinct : (left.map Target.hash).Nodup
  holding : (s.shared.cells cell).message = some message →
    cell < s.shared.allocated ∧ (UntilImported.emitted s).count message = 0 ∧
      (∀ hash, cellHandles s.pending cell hash = (left.filter (·.hash = hash)).map Target.number) ∧
      if exact then (s.shared.cells cell).count = left.length ∧ left ≠ []
      else left.length < (s.shared.cells cell).count
  settled : (s.shared.cells cell).message ≠ some message →
    (exact = true → left = []) ∧ (UntilImported.emitted s).count message = if exact then 1 else 0

variable {s next : UntilGlobalMessageBlocksImported H N} {cell : Nat} {message : CommunicationIn H N}
  {left : List (Target H N)} {exact : Bool}

/-- Once the `Arc` no longer holds the message, the message's fate is sealed:
any step that only drains `Arc`s and emits no copy of it keeps it. -/
theorem Tracked.transport (tracked : Tracked s cell message left exact)
    (notHeld : (s.shared.cells cell).message ≠ some message) (drains : s.shared.Drains next.shared)
    (same : (UntilImported.emitted next).count message = (UntilImported.emitted s).count message) :
    Tracked next cell message left exact where
  onlyAt index different held := tracked.onlyAt index different (drains index message held)
  distinct := tracked.distinct
  holding held := absurd (drains cell message held) notHeld
  settled _ := same ▸ tracked.settled notHeld

theorem Tracked.relabel (tracked : Tracked s cell message left exact)
    (notHeld : (s.shared.cells cell).message ≠ some message) {others : List (Target H N)}
    (distinct : (others.map Target.hash).Nodup) (settles : exact = true → others = []) :
    Tracked s cell message others exact where
  onlyAt := tracked.onlyAt
  distinct := distinct
  holding held := absurd held notHeld
  settled _ := ⟨settles, (tracked.settled notHeld).2⟩

theorem Tracked.advance_unheld (tracked : Tracked s cell message left exact)
    (notHeld : (s.shared.cells cell).message ≠ some message) (drains : s.shared.Drains next.shared)
    (same : (UntilImported.emitted next).count message = (UntilImported.emitted s).count message)
    (observed : H → Option N) :
    Tracked next cell message (left.filter (Target.waiting observed))
      (exact && left.all (Target.agrees observed)) := by
  have sealed := (tracked.settled notHeld).1
  have moved := tracked.transport notHeld drains same
  have nextUnheld : (next.shared.cells cell).message ≠ some message :=
    fun held => notHeld (drains cell message held)
  cases exact with
  | false =>
    exact moved.relabel nextUnheld ((List.filter_sublist.map Target.hash).nodup tracked.distinct) nofun
  | true =>
    rw [sealed rfl] at moved ⊢
    exact moved

/-- A step that keeps `pending` and the `Arc`s and emits no copy of the
message keeps it where it stands. -/
theorem Tracked.congr (tracked : Tracked s cell message left exact)
    (pending : next.pending = s.pending) (shared : next.shared = s.shared)
    (same : (UntilImported.emitted next).count message = (UntilImported.emitted s).count message) :
    Tracked next cell message left exact := by
  rcases s with ⟨status, ready, pendingBefore, sharedBefore, yielded⟩
  rcases next with ⟨statusAfter, readyAfter, pendingAfter, sharedAfter, yieldedAfter⟩
  simp only at pending shared
  subst pending shared
  exact ⟨tracked.onlyAt, tracked.distinct, fun held => same ▸ tracked.holding held,
    fun notHeld => same ▸ tracked.settled notHeld⟩

omit [DecidableEq H] in
theorem advance_nothing (targets : List (Target H N)) (exact : Bool) :
    targets.filter (Target.waiting fun _ => none) = targets ∧
      (exact && targets.all (Target.agrees fun _ => none)) = exact := by
  simp [Target.waiting, Target.agrees]

omit [DecidableEq H] in
/-- What one event changes of the condition of release: the targets it
observes are settled there, the others are left to the later events. -/
theorem advance_firstSeen_iff (observed later : H → Option N) (targets : List (Target H N)) (exact : Bool) :
    ((exact && targets.all (Target.agrees observed)) = true ∧
        ∀ target ∈ targets.filter (Target.waiting observed), later target.hash = some target.number) ↔
      exact = true ∧ ∀ target ∈ targets, (observed target.hash).or (later target.hash) = some target.number := by
  rw [Bool.and_eq_true, List.all_eq_true, and_assoc]
  apply and_congr_right
  intro _
  constructor
  · rintro ⟨agreeing, waited⟩ target member
    cases learned : observed target.hash with
    | none =>
      rw [Option.none_or]
      exact waited target (List.mem_filter.mpr ⟨member, by simp [Target.waiting, learned]⟩)
    | some number =>
      have agrees := agreeing target member
      simp only [Target.agrees, learned, Option.all_some, decide_eq_true_eq] at agrees
      rw [Option.some_or, agrees]
  · intro settled
    constructor
    · intro target member
      have release := settled target member
      cases learned : observed target.hash with
      | none => simp [Target.agrees, learned]
      | some number =>
        rw [learned, Option.some_or] at release
        simp [Target.agrees, learned, Option.some.inj release]
    · intro target member
      obtain ⟨original, unseen⟩ := List.mem_filter.mp member
      have release := settled target original
      simp only [Target.waiting, Option.isNone_iff_eq_none] at unseen
      rwa [unseen, Option.none_or] at release

omit [DecidableEq N] in
theorem filter_hash_eq_singleton {targets : List (Target H N)} (distinct : (targets.map Target.hash).Nodup)
    {target : Target H N} (member : target ∈ targets) :
    targets.filter (·.hash = target.hash) = [target] := by
  induction targets with
  | nil => cases member
  | cons head tail ih =>
    rw [List.map_cons, List.nodup_cons] at distinct
    rcases List.mem_cons.mp member with first | later
    · subst first
      rw [List.filter_cons_of_pos (by simp), List.filter_eq_nil_iff.mpr]
      intro other otherMember named
      exact distinct.1 (List.mem_map.mpr ⟨other, otherMember, of_decide_eq_true named⟩)
    · have differs : head.hash ≠ target.hash := by
        intro same
        exact distinct.1 (same ▸ List.mem_map_of_mem later)
      rw [List.filter_cons_of_neg (by simpa using differs)]
      exact ih distinct.2 later

omit [DecidableEq N] in
theorem length_filter_hash_ne {targets : List (Target H N)} {target : Target H N}
    (single : targets.filter (·.hash = target.hash) = [target]) :
    (targets.filter fun other => other.hash ≠ target.hash).length + 1 = targets.length := by
  have split := List.length_eq_length_filter_add (l := targets) fun other => decide (other.hash = target.hash)
  rw [single, List.length_singleton] at split
  simp only [decide_not] at split ⊢
  omega

omit [DecidableEq N] in
theorem cellHandles_erase_filter {pending : AList fun _ : H => List (BlockGlobalMessage N)} {cell : Nat}
    {targets : List (Target H N)}
    (handles : ∀ hash, cellHandles pending cell hash = (targets.filter (·.hash = hash)).map Target.number)
    (erased : H) (hash : H) :
    cellHandles (pending.erase erased) cell hash =
      ((targets.filter fun other => other.hash ≠ erased).filter (·.hash = hash)).map Target.number := by
  by_cases same : hash = erased
  · subst same
    rw [cellHandles_erase_self, List.filter_filter]
    simp
  · rw [cellHandles_erase_of_ne _ _ same, handles, List.filter_filter]
    congr 1
    apply List.filter_congr
    intro other _
    by_cases named : other.hash = hash
    · simp [named, same]
    · simp [named]

variable {s next : UntilGlobalMessageBlocksImported H N} {cell : Nat} {message : CommunicationIn H N}
  {left : List (Target H N)} {exact : Bool}

theorem completeWaits_drains (s : UntilGlobalMessageBlocksImported H N) (hash : H) (canonNumber : N) :
    s.shared.Drains (UntilImported.completeWaits globalMessage s hash canonNumber).shared := by
  cases looked : s.pending.lookup hash with
  | none =>
    rw [UntilImported.completeWaits_of_lookup_none _ looked]
    exact Arcs.Drains.refl _
  | some waits =>
    rw [UntilImported.completeWaits_of_lookup_some _ looked]
    exact completeAll_drains waits s.shared

/-- No copy of a message that no `Arc` holds comes out of a completion. -/
theorem count_completeWaits_of_unheld (unheld : ∀ index, (s.shared.cells index).message ≠ some message)
    (hash : H) (canonNumber : N) :
    (UntilImported.emitted (UntilImported.completeWaits globalMessage s hash canonNumber)).count message =
      (UntilImported.emitted s).count message := by
  cases looked : s.pending.lookup hash with
  | none => rw [UntilImported.completeWaits_of_lookup_none _ looked]
  | some waits =>
    rw [UntilImported.completeWaits_of_lookup_some _ looked]
    have silent : (UntilImported.completeAll globalMessage canonNumber waits s.shared).2.count message = 0 := by
      apply List.count_eq_zero.mpr
      intro released
      obtain ⟨handle, _, holds⟩ := completeAll_released released
      exact unheld handle.inner holds
    simp only [UntilImported.emitted, ← List.append_assoc, List.count_append, silent, Nat.add_zero]

/-- A completion on a hash the message does not wait for leaves it where it
stands. -/
theorem Tracked.completeWaits_away (tracked : Tracked s cell message left exact)
    (held : (s.shared.cells cell).message = some message) {hash : H}
    (away : ∀ target ∈ left, target.hash ≠ hash) (canonNumber : N) :
    Tracked (UntilImported.completeWaits globalMessage s hash canonNumber) cell message left exact := by
  obtain ⟨allocated, notEmitted, handles, counted⟩ := tracked.holding held
  cases looked : s.pending.lookup hash with
  | none =>
    rw [UntilImported.completeWaits_of_lookup_none _ looked]
    exact tracked
  | some waits =>
    have others : ∀ handle ∈ waits, handle.inner ≠ cell := by
      apply cellWaits_eq_nil_iff.mp
      rw [← cellHandles_of_lookup looked, handles hash, List.map_eq_nil_iff, List.filter_eq_nil_iff]
      intro target member named
      exact away target member (of_decide_eq_true named)
    have unchanged : (UntilImported.completeAll globalMessage canonNumber _ s.shared).1.cells _ = _ :=
      completeAll_cells_of_forall_ne others s.shared
    have silent : (UntilImported.completeAll globalMessage canonNumber waits s.shared).2.count message = 0 := by
      apply List.count_eq_zero.mpr
      intro released
      obtain ⟨handle, member, holds⟩ := completeAll_released released
      exact tracked.onlyAt handle.inner (others handle member) holds
    rw [UntilImported.completeWaits_of_lookup_some _ looked]
    refine ⟨fun index different holds => tracked.onlyAt index different (completeAll_drains _ _ _ _ holds),
      tracked.distinct, fun _ => ⟨?_, ?_, ?_, ?_⟩, fun notHeld => absurd (unchanged ▸ held) notHeld⟩
    · rw [completeAll_allocated]
      exact allocated
    · simp only [UntilImported.emitted, List.count_append, silent] at notEmitted ⊢
      omega
    · intro looked
      rw [cellHandles_erase_filter handles hash looked]
      congr 2
      exact List.filter_eq_self.mpr fun target member => decide_eq_true (away target member)
    · rw [unchanged]
      exact counted

/-- A completion on a hash the message waits for: the wait ends, and the
message is taken when it was the last one and no wait failed. -/
theorem Tracked.completeWaits_one (tracked : Tracked s cell message left exact)
    (held : (s.shared.cells cell).message = some message) {target : Target H N} (member : target ∈ left)
    (canonNumber : N) :
    Tracked (UntilImported.completeWaits globalMessage s target.hash canonNumber) cell message
      (left.filter fun other => other.hash ≠ target.hash) (exact && decide (target.number = canonNumber)) := by
  obtain ⟨allocated, notEmitted, handles, counted⟩ := tracked.holding held
  have only := filter_hash_eq_singleton tracked.distinct member
  have fewer := length_filter_hash_ne only
  have single : cellHandles s.pending cell target.hash = [target.number] := by
    rw [handles, only]
    rfl
  obtain ⟨waits, looked⟩ : ∃ waits, s.pending.lookup target.hash = some waits := by
    cases looked : s.pending.lookup target.hash with
    | none =>
      rw [cellHandles_of_lookup_none looked] at single
      cases single
    | some waits => exact ⟨waits, rfl⟩
  rw [cellHandles_of_lookup looked] at single
  obtain ⟨cellAfter, countAfter⟩ :
      (UntilImported.completeAll globalMessage canonNumber _ _).1.cells _ = _ ∧ _ :=
    completeAll_single single tracked.onlyAt
  have drained : s.shared.Drains (UntilImported.completeAll globalMessage canonNumber waits s.shared).1 :=
    completeAll_drains waits s.shared
  rw [UntilImported.completeWaits_of_lookup_some _ looked]
  have onlyAt : ∀ index ≠ cell, ((UntilImported.completeAll globalMessage canonNumber waits s.shared).1.cells index).message ≠ some message :=
    fun index different holds => tracked.onlyAt index different (drained index message holds)
  have distinct : ((left.filter fun other => other.hash ≠ target.hash).map Target.hash).Nodup :=
    (List.filter_sublist.map Target.hash).nodup tracked.distinct
  have handlesAfter := cellHandles_erase_filter handles target.hash
  have emittedAfter : ∀ released : Nat,
      (UntilImported.completeAll globalMessage canonNumber waits s.shared).2.count message = released →
      (s.yielded ++ (s.ready ++ (UntilImported.completeAll globalMessage canonNumber waits s.shared).2)).count message =
        released := by
    intro released counts
    simp only [UntilImported.emitted, List.count_append] at notEmitted ⊢
    omega
  by_cases agrees : target.number = canonNumber
  · rw [if_pos agrees] at cellAfter countAfter
    by_cases last : (s.shared.cells cell).count = 1
    · -- the last wait takes the message
      have taken : (s.shared.cells cell).complete = ({ s.shared.cells cell with message := none }, some message) := by
        simp [Locked.complete, last, held]
      rw [taken] at cellAfter countAfter
      have exactly : exact = true ∧ left.length = 1 := by
        cases exact with
        | false =>
          have short : left.length < 1 := by simpa [last] using counted
          exact absurd (List.length_pos_of_mem member) (by omega)
        | true =>
          simp only [if_true] at counted
          exact ⟨rfl, counted.1 ▸ last⟩
      obtain ⟨rfl, one⟩ := exactly
      have gone : (left.filter fun other => other.hash ≠ target.hash) = [] :=
        List.eq_nil_of_length_eq_zero (by omega)
      rw [gone, decide_eq_true agrees]
      refine ⟨onlyAt, List.nodup_nil, fun holds => ?_, fun _ => ⟨fun _ => rfl, ?_⟩⟩
      · simp [cellAfter] at holds
      · exact emittedAfter 1 (by simpa using countAfter)
    · -- another wait decrements the count
      have decremented : (s.shared.cells cell).complete =
          ({ s.shared.cells cell with count := (s.shared.cells cell).count - 1 }, none) := by
        simp [Locked.complete, last]
      rw [decremented] at cellAfter countAfter
      rw [decide_eq_true agrees, Bool.and_true]
      refine ⟨onlyAt, distinct, fun _ => ⟨?_, emittedAfter 0 (by simpa using countAfter), handlesAfter, ?_⟩,
        fun notHeld => absurd (by simp [cellAfter, held]) notHeld⟩
      · rw [completeAll_allocated]
        exact allocated
      · rw [cellAfter]
        cases exact with
        | false =>
          simp only [Bool.false_eq_true, if_false] at counted ⊢
          omega
        | true =>
          simp only [if_true] at counted ⊢
          refine ⟨by omega, List.ne_nil_of_length_pos (by omega)⟩
  · -- a wrong number: the count is never decremented again for this wait
    rw [if_neg agrees] at cellAfter countAfter
    rw [decide_eq_false agrees, Bool.and_false]
    refine ⟨onlyAt, distinct, fun _ => ⟨?_, emittedAfter 0 countAfter, handlesAfter, ?_⟩,
      fun notHeld => absurd (by simp [cellAfter, held]) notHeld⟩
    · rw [completeAll_allocated]
      exact allocated
    · rw [cellAfter]
      simp only [Bool.false_eq_true, if_false]
      cases exact with
      | false =>
        simp only [Bool.false_eq_true, if_false] at counted
        omega
      | true =>
        simp only [if_true] at counted
        omega

/-- An import notification, or one completion of the periodic check: the
waits on the hash end with the block's number. -/
theorem Tracked.completeWaits (tracked : Tracked s cell message left exact) (hash : H) (canonNumber : N) :
    Tracked (UntilImported.completeWaits globalMessage s hash canonNumber) cell message
      (left.filter (Target.waiting fun looked => if hash = looked then some canonNumber else none))
      (exact && left.all (Target.agrees fun looked => if hash = looked then some canonNumber else none)) := by
  by_cases held : (s.shared.cells cell).message = some message
  · by_cases present : ∃ target ∈ left, target.hash = hash
    · obtain ⟨target, member, rfl⟩ := present
      have waitingEq : left.filter (Target.waiting fun looked => if target.hash = looked then some canonNumber else none) =
          left.filter fun other => other.hash ≠ target.hash := by
        apply List.filter_congr
        intro other _
        by_cases same : target.hash = other.hash
        · simp [Target.waiting, same]
        · simp [Target.waiting, same, Ne.symm same]
      have agreesEq : left.all (Target.agrees fun looked => if target.hash = looked then some canonNumber else none) =
          decide (target.number = canonNumber) := by
        rw [Bool.eq_iff_iff, List.all_eq_true, decide_eq_true_iff]
        constructor
        · intro agreeing
          have agrees := agreeing target member
          simp only [Target.agrees, if_true, Option.all_some, decide_eq_true_eq] at agrees
          exact agrees.symm
        · intro agrees other otherMember
          by_cases same : target.hash = other.hash
          · have identical : other = target :=
              List.inj_on_of_nodup_map tracked.distinct otherMember member same.symm
            subst identical
            simp [Target.agrees, agrees]
          · simp [Target.agrees, same]
      rw [waitingEq, agreesEq]
      exact tracked.completeWaits_one held member canonNumber
    · have away : ∀ target ∈ left, target.hash ≠ hash := fun target member named => present ⟨target, member, named⟩
      have unaffected := advance_nothing left exact
      have waitingEq : left.filter (Target.waiting fun looked => if hash = looked then some canonNumber else none) = left :=
        List.filter_eq_self.mpr fun target member => by simp [Target.waiting, Ne.symm (away target member)]
      have agreesEq : left.all (Target.agrees fun looked => if hash = looked then some canonNumber else none) = true :=
        List.all_eq_true.mpr fun target member => by simp [Target.agrees, Ne.symm (away target member)]
      rw [waitingEq, agreesEq, Bool.and_true]
      exact tracked.completeWaits_away held away canonNumber
  · have unheld : ∀ index, (s.shared.cells index).message ≠ some message := by
      intro index
      by_cases same : index = cell
      · rw [same]
        exact held
      · exact tracked.onlyAt index same
    exact tracked.advance_unheld held (completeWaits_drains s hash canonNumber)
      (count_completeWaits_of_unheld unheld hash canonNumber) _

omit [DecidableEq N] in
theorem lookup_cons_eq_or (known : H × N) (rest : List (H × N)) :
    (fun hash => (known :: rest).lookup hash) =
      fun hash => (if known.1 = hash then some known.2 else none).or (rest.lookup hash) := by
  funext hash
  obtain ⟨key, value⟩ := known
  by_cases same : key = hash
  · subst same
    simp
  · have differs : (hash == key) = false := beq_false_of_ne (Ne.symm same)
    simp [List.lookup_cons, differs, same]

/-- The completions of the periodic check, in the order of `known_keys`. -/
theorem Tracked.foldl_completeWaits :
    ∀ (known : List (H × N)) {s : UntilGlobalMessageBlocksImported H N} {left : List (Target H N)} {exact : Bool},
      Tracked s cell message left exact →
      Tracked (known.foldl (fun s known => UntilImported.completeWaits globalMessage s known.1 known.2) s)
        cell message (left.filter (Target.waiting fun hash => known.lookup hash))
        (exact && left.all (Target.agrees fun hash => known.lookup hash)) := by
  intro known
  induction known with
  | nil =>
    intro s left exact tracked
    obtain ⟨waitingEq, agreesEq⟩ := advance_nothing left exact
    simp only [List.lookup_nil, List.foldl_nil]
    rw [waitingEq, agreesEq]
    exact tracked
  | cons first rest ih =>
    intro s left exact tracked
    have continued := ih (tracked.completeWaits first.1 first.2)
    rw [List.foldl_cons, lookup_cons_eq_or, filter_waiting_or, all_agrees_or, ← Bool.and_assoc]
    exact continued

theorem checkPending_drains (s : UntilGlobalMessageBlocksImported H N) :
    s.shared.Drains (UntilImported.checkPending globalMessage s).shared := by
  unfold UntilImported.checkPending
  generalize UntilImported.knownKeys s = known
  induction known generalizing s with
  | nil => exact Arcs.Drains.refl _
  | cons first rest ih => exact (completeWaits_drains s first.1 first.2).trans (ih _)

theorem count_checkPending_of_unheld (unheld : ∀ index, (s.shared.cells index).message ≠ some message) :
    (UntilImported.emitted (UntilImported.checkPending globalMessage s)).count message =
      (UntilImported.emitted s).count message := by
  unfold UntilImported.checkPending
  generalize UntilImported.knownKeys s = known
  induction known generalizing s with
  | nil => rfl
  | cons first rest ih =>
    rw [List.foldl_cons, ih, count_completeWaits_of_unheld unheld]
    intro index holds
    exact unheld index (completeWaits_drains s first.1 first.2 index message holds)

/-- The periodic check ends the waits on every block the oracle knows. -/
theorem Tracked.checkPending (tracked : Tracked s cell message left exact) :
    Tracked (UntilImported.checkPending globalMessage s) cell message
      (left.filter (Target.waiting s.status)) (exact && left.all (Target.agrees s.status)) := by
  by_cases held : (s.shared.cells cell).message = some message
  · have handles := (tracked.holding held).2.2.1
    have pendingKey : ∀ target ∈ left, target.hash ∈ s.pending.keys := by
      intro target member
      rw [← AList.mem_keys, ← AList.lookup_isSome]
      cases looked : s.pending.lookup target.hash with
      | none =>
        have empty := handles target.hash
        rw [cellHandles_of_lookup_none looked, eq_comm, List.map_eq_nil_iff, List.filter_eq_nil_iff] at empty
        exact absurd (decide_eq_true rfl) (empty target member)
      | some waits => rfl
    have observedEq : ∀ target ∈ left,
        (UntilImported.knownKeys s).lookup target.hash = s.status target.hash := by
      intro target member
      rw [UntilImported.knownKeys, lookup_filterMap_keys, if_pos (pendingKey target member)]
    have folded := tracked.foldl_completeWaits (UntilImported.knownKeys s)
    have waitingEq : left.filter (Target.waiting fun hash => (UntilImported.knownKeys s).lookup hash) =
        left.filter (Target.waiting s.status) :=
      List.filter_congr fun target member => by simp only [Target.waiting, observedEq target member]
    have agreesEq : left.all (Target.agrees fun hash => (UntilImported.knownKeys s).lookup hash) =
        left.all (Target.agrees s.status) := by
      rw [Bool.eq_iff_iff, List.all_eq_true, List.all_eq_true]
      apply forall₂_congr
      intro target member
      simp only [Target.agrees, observedEq target member]
    rw [← waitingEq, ← agreesEq]
    exact folded
  · have unheld : ∀ index, (s.shared.cells index).message ≠ some message := by
      intro index
      by_cases same : index = cell
      · rw [same]
        exact held
      · exact tracked.onlyAt index same
    exact tracked.advance_unheld held (checkPending_drains s) (count_checkPending_of_unheld unheld) _

theorem scheduleWait_of_none {status : H → Option N} {input : CommunicationIn H N}
    (dropped : input.targets.foldlM (queryKnown status) ([], 0) = none) (arcs : Arcs (CommunicationIn H N)) :
    BlockGlobalMessage.scheduleWait status input arcs = (arcs, [], []) := by
  simp [BlockGlobalMessage.scheduleWait, dropped]

theorem scheduleWait_of_known {status : H → Option N} {input : CommunicationIn H N}
    {checked : List (H × KnownOrUnknown N) × Nat}
    (looked : input.targets.foldlM (queryKnown status) ([], 0) = some checked) (known : checked.2 = 0)
    (arcs : Arcs (CommunicationIn H N)) :
    BlockGlobalMessage.scheduleWait status input arcs = (arcs, [], [input]) := by
  simp [BlockGlobalMessage.scheduleWait, looked, known]

theorem scheduleWait_of_unknown {status : H → Option N} {input : CommunicationIn H N}
    {checked : List (H × KnownOrUnknown N) × Nat}
    (looked : input.targets.foldlM (queryKnown status) ([], 0) = some checked) (unknown : checked.2 ≠ 0)
    (arcs : Arcs (CommunicationIn H N)) :
    BlockGlobalMessage.scheduleWait status input arcs =
      (arcs.alloc ⟨checked.2, some input⟩,
        (unknownTargets checked.1).map (fun target => (target.hash, ⟨arcs.allocated, target.number⟩)), []) := by
  simp [BlockGlobalMessage.scheduleWait, looked, unknown]

omit [DecidableEq N] in
/-- The waits of one `Arc`, read per hash. -/
theorem cellWaits_fresh (targets : List (Target H N)) (fresh cell : Nat) (hash : H) :
    cellWaits cell ((((targets.map fun target => (target.hash, (⟨fresh, target.number⟩ : BlockGlobalMessage N))).filter
        (·.1 = hash)).map Prod.snd)) =
      if fresh = cell then (targets.filter (·.hash = hash)).map Target.number else [] := by
  induction targets with
  | nil => simp [cellWaits]
  | cons target targets ih =>
    by_cases named : target.hash = hash
    · by_cases own : fresh = cell
      · simp_all [cellWaits_cons]
      · simp_all [cellWaits_cons]
    · simp_all

theorem pushInput_global (s : UntilGlobalMessageBlocksImported H N) (input : CommunicationIn H N) :
    UntilImported.pushInput globalMessage s input =
      { s with
          pending := (BlockGlobalMessage.scheduleWait s.status input s.shared).2.1.foldl
            (fun pending handle => UntilImported.wait pending handle.1 handle.2) s.pending
          shared := (BlockGlobalMessage.scheduleWait s.status input s.shared).1
          ready := s.ready ++ (BlockGlobalMessage.scheduleWait s.status input s.shared).2.2 } :=
  rfl

/-- Another message's input: it is dropped, ready at once, or gets a new
`Arc` and waits of its own. -/
theorem Tracked.pushInput (tracked : Tracked s cell message left exact) {input : CommunicationIn H N}
    (other : input ≠ message) :
    Tracked (UntilImported.pushInput globalMessage s input) cell message left exact := by
  rw [pushInput_global]
  cases looked : input.targets.foldlM (queryKnown s.status) ([], 0) with
  | none =>
    rw [scheduleWait_of_none looked]
    exact tracked.congr rfl rfl (by simp [UntilImported.emitted])
  | some checked =>
    by_cases known : checked.2 = 0
    · rw [scheduleWait_of_known looked known]
      exact tracked.congr rfl rfl (by simp [UntilImported.emitted, List.count_append, other])
    · rw [scheduleWait_of_unknown looked known]
      have others : ∀ index ≠ cell, ((s.shared.alloc ⟨checked.2, some input⟩).cells index).message ≠ some message := by
        intro index different holds
        rw [Arcs.alloc_cells] at holds
        split at holds
        · exact other (Option.some.inj holds)
        · exact tracked.onlyAt index different holds
      have fresh : (s.shared.cells cell).message = some message → cell ≠ s.shared.allocated :=
        fun held same => Nat.lt_irrefl _ (same ▸ (tracked.holding held).1)
      have kept : ((s.shared.alloc ⟨checked.2, some input⟩).cells cell).message = some message →
          (s.shared.alloc ⟨checked.2, some input⟩).cells cell = s.shared.cells cell := by
        intro holds
        rw [Arcs.alloc_cells] at holds ⊢
        split at holds
        · exact absurd (Option.some.inj holds) other
        · rw [if_neg (by assumption)]
      refine ⟨others, tracked.distinct, fun holds => ?_, fun notHeld => ?_⟩
      · have held : (s.shared.cells cell).message = some message := kept holds ▸ holds
        obtain ⟨allocated, notEmitted, handles, counted⟩ := tracked.holding held
        refine ⟨by simp only [Arcs.alloc_allocated]; omega, by simpa [UntilImported.emitted] using notEmitted,
          fun hash => ?_, by rw [kept holds]; exact counted⟩
        rw [cellHandles_foldl_wait, cellWaits_fresh, if_neg (Ne.symm (fresh held)), List.append_nil, handles]
      · have before : (s.shared.cells cell).message ≠ some message := by
          intro held
          apply notHeld
          rw [Arcs.alloc_cells, if_neg (fresh held)]
          exact held
        simpa [UntilImported.emitted] using tracked.settled before

/-- One event other than the message's own input. -/
theorem Tracked.step (tracked : Tracked s cell message left exact) {event : Event H N (CommunicationIn H N)}
    (other : event ≠ .input message) :
    Tracked (UntilImported.step globalMessage event s) cell message
      (left.filter (Target.waiting (event.observation s))) (exact && left.all (Target.agrees (event.observation s))) := by
  cases event with
  | input input =>
    obtain ⟨waitingEq, agreesEq⟩ := advance_nothing left exact
    simp only [Event.observation]
    rw [waitingEq, agreesEq]
    exact tracked.pushInput fun same => other (same ▸ rfl)
  | blockImported hash number =>
    obtain ⟨waitingEq, agreesEq⟩ := advance_nothing left exact
    simp only [Event.observation]
    rw [waitingEq, agreesEq]
    exact tracked.congr rfl rfl rfl
  | importNotification hash number => exact tracked.completeWaits hash number
  | checkPending => exact tracked.checkPending
  | pollReady =>
    obtain ⟨waitingEq, agreesEq⟩ := advance_nothing left exact
    simp only [Event.observation]
    rw [waitingEq, agreesEq]
    exact tracked.congr (by rcases s with ⟨_, _ | _, _, _, _⟩ <;> rfl) (by rcases s with ⟨_, _ | _, _, _, _⟩ <;> rfl)
      (by rw [UntilImported.step, UntilImported.emitted_pollReady])

omit [DecidableEq H] [DecidableEq N] in
theorem Event.inputs_cons_of_ne {message : B} {event : Event H N B} {events : List (Event H N B)}
    (absent : message ∉ Event.inputs (event :: events)) :
    event ≠ .input message ∧ message ∉ Event.inputs events := by
  cases event with
  | input input =>
    simp only [Event.inputs, List.filterMap_cons, List.mem_cons, not_or] at absent
    exact ⟨fun same => absent.1 (Event.input.inj same).symm, absent.2⟩
  | _ => exact ⟨nofun, by simpa [Event.inputs] using absent⟩

/-- Over the events after its arrival, a followed message is emitted once
exactly when no wait of it has failed and the stream learns the number of
each block it waits for, the one the message's votes give. -/
theorem Tracked.count_perform :
    ∀ {events : List (Event H N (CommunicationIn H N))} {s : UntilGlobalMessageBlocksImported H N}
      {left : List (Target H N)} {exact : Bool},
      Tracked s cell message left exact → message ∉ Event.inputs events →
      (UntilImported.emitted (perform (UntilImported.step globalMessage) s events)).count message =
        if exact = true ∧ ∀ target ∈ left,
            UntilImported.firstSeen globalMessage s events target.hash = some target.number then 1 else 0 := by
  intro events
  induction events with
  | nil =>
    intro s left exact tracked _
    simp only [perform_nil, UntilImported.firstSeen, reduceCtorEq]
    by_cases held : (s.shared.cells cell).message = some message
    · obtain ⟨_, notEmitted, _, counted⟩ := tracked.holding held
      rw [notEmitted]
      cases exact with
      | false => simp
      | true =>
        simp only [if_true] at counted
        obtain ⟨target, member⟩ := List.exists_mem_of_ne_nil _ counted.2
        simp only [true_and]
        rw [if_neg (fun waited => waited target member)]
    · obtain ⟨sealed, counted⟩ := tracked.settled held
      rw [counted]
      cases exact with
      | false => simp
      | true => simp [sealed rfl]
  | cons event events ih =>
    intro s left exact tracked absent
    obtain ⟨other, later⟩ := Event.inputs_cons_of_ne absent
    rw [perform_cons, ih (tracked.step other) later]
    exact if_congr (advance_firstSeen_iff _ _ left exact) rfl rfl

end Tracking

/-! ## Every run of the stream -/

section Runs

variable [DecidableEq H] [DecidableEq N]

/-- What holds of every state the stream reaches by the events `done`: every
wait refers to an `Arc` already allocated, and every message emitted or held
by an `Arc` came in as an input. -/
structure Reached (done : List (Event H N (CommunicationIn H N))) (s : UntilGlobalMessageBlocksImported H N) :
    Prop where
  allocated : ∀ hash, ∀ handle ∈ (s.pending.lookup hash).getD [], handle.inner < s.shared.allocated
  emittedInput : ∀ message ∈ UntilImported.emitted s, message ∈ Event.inputs done
  heldInput : ∀ index message, (s.shared.cells index).message = some message → message ∈ Event.inputs done

omit [DecidableEq N] in
theorem mem_lookup_foldl_wait {waits : List (H × BlockGlobalMessage N)}
    {pending : AList fun _ : H => List (BlockGlobalMessage N)} {hash : H} {handle : BlockGlobalMessage N}
    (member : handle ∈ ((waits.foldl (fun pending handle => UntilImported.wait pending handle.1 handle.2)
      pending).lookup hash).getD []) :
    handle ∈ (pending.lookup hash).getD [] ∨ ∃ added ∈ waits, added.2 = handle := by
  induction waits generalizing pending with
  | nil => exact .inl member
  | cons added waits ih =>
    rcases ih member with earlier | later
    · unfold UntilImported.wait at earlier
      by_cases same : hash = added.1
      · subst same
        rw [AList.lookup_upsert_self, Option.getD_some, List.mem_append, List.mem_singleton] at earlier
        rcases earlier with old | new
        · exact .inl old
        · exact .inr ⟨added, List.mem_cons_self, new.symm⟩
      · rw [AList.lookup_upsert_of_ne _ _ same] at earlier
        exact .inl earlier
    · obtain ⟨other, otherMember, named⟩ := later
      exact .inr ⟨other, List.mem_cons_of_mem _ otherMember, named⟩

omit [DecidableEq N] in
theorem mem_lookup_erase {pending : AList fun _ : H => List (BlockGlobalMessage N)} {erased hash : H}
    {handle : BlockGlobalMessage N} (member : handle ∈ ((pending.erase erased).lookup hash).getD []) :
    handle ∈ (pending.lookup hash).getD [] := by
  by_cases same : hash = erased
  · subst same
    rw [AList.lookup_erase] at member
    cases member
  · rwa [AList.lookup_erase_ne same] at member

omit [DecidableEq H] [DecidableEq N] in
theorem Event.mem_inputs_append {done : List (Event H N B)} {event : Event H N B} {message : B}
    (member : message ∈ Event.inputs done) : message ∈ Event.inputs (done ++ [event]) := by
  rw [Event.inputs, List.filterMap_append]
  exact List.mem_append_left _ member

omit [DecidableEq N] in
theorem Reached.initial (status : H → Option N) :
    Reached [] (UntilImported.new status Arcs.empty : UntilGlobalMessageBlocksImported H N) where
  allocated hash handle member := by simp [UntilImported.new] at member
  emittedInput message member := by simp [UntilImported.new, UntilImported.emitted] at member
  heldInput index message held := by simp [UntilImported.new, Arcs.empty] at held

omit [DecidableEq N] in
theorem Reached.congr {done : List (Event H N (CommunicationIn H N))} {s next : UntilGlobalMessageBlocksImported H N}
    (reached : Reached done s) (pending : next.pending = s.pending) (shared : next.shared = s.shared)
    (emitted : UntilImported.emitted next = UntilImported.emitted s) : Reached done next where
  allocated := pending ▸ shared ▸ reached.allocated
  emittedInput := emitted ▸ reached.emittedInput
  heldInput := shared ▸ reached.heldInput

theorem Reached.completeWaits {done : List (Event H N (CommunicationIn H N))} {s : UntilGlobalMessageBlocksImported H N}
    (reached : Reached done s) (hash : H) (canonNumber : N) :
    Reached done (UntilImported.completeWaits globalMessage s hash canonNumber) := by
  cases looked : s.pending.lookup hash with
  | none =>
    rw [UntilImported.completeWaits_of_lookup_none _ looked]
    exact reached
  | some waits =>
    rw [UntilImported.completeWaits_of_lookup_some _ looked]
    refine ⟨fun other handle member => ?_, fun message member => ?_, fun index message held => ?_⟩
    · rw [completeAll_allocated]
      exact reached.allocated other handle (mem_lookup_erase member)
    · simp only [UntilImported.emitted, List.mem_append] at member
      rcases member with old | old | released
      · exact reached.emittedInput message (List.mem_append_left _ old)
      · exact reached.emittedInput message (List.mem_append_right _ old)
      · obtain ⟨handle, _, holds⟩ := completeAll_released released
        exact reached.heldInput handle.inner message holds
    · exact reached.heldInput index message (completeAll_drains _ _ _ _ held)

theorem Reached.checkPending {done : List (Event H N (CommunicationIn H N))} {s : UntilGlobalMessageBlocksImported H N}
    (reached : Reached done s) : Reached done (UntilImported.checkPending globalMessage s) := by
  unfold UntilImported.checkPending
  generalize UntilImported.knownKeys s = known
  induction known generalizing s with
  | nil => exact reached
  | cons first rest ih => exact ih (reached.completeWaits first.1 first.2)

theorem Reached.pushInput {done : List (Event H N (CommunicationIn H N))} {s : UntilGlobalMessageBlocksImported H N}
    (reached : Reached done s) (input : CommunicationIn H N) :
    Reached (done ++ [.input input]) (UntilImported.pushInput globalMessage s input) := by
  have arrived : input ∈ Event.inputs (done ++ [.input input]) := by
    simp [Event.inputs]
  have kept : ∀ message ∈ Event.inputs done, message ∈ Event.inputs (done ++ [.input input]) :=
    fun message member => Event.mem_inputs_append member
  rw [pushInput_global]
  cases looked : input.targets.foldlM (queryKnown s.status) ([], 0) with
  | none =>
    rw [scheduleWait_of_none looked]
    refine ⟨reached.allocated, fun message member => kept message (reached.emittedInput message ?_),
      fun index message held => kept message (reached.heldInput index message held)⟩
    simpa [UntilImported.emitted] using member
  | some checked =>
    by_cases known : checked.2 = 0
    · rw [scheduleWait_of_known looked known]
      refine ⟨reached.allocated, fun message member => ?_,
        fun index message held => kept message (reached.heldInput index message held)⟩
      simp only [UntilImported.emitted, ← List.append_assoc, List.mem_append, List.mem_singleton] at member
      rcases member with old | rfl
      · exact kept message (reached.emittedInput message (by simpa [UntilImported.emitted] using old))
      · exact arrived
    · rw [scheduleWait_of_unknown looked known]
      refine ⟨fun hash handle member => ?_, fun message member => ?_, fun index message held => ?_⟩
      · simp only [Arcs.alloc_allocated]
        rcases mem_lookup_foldl_wait member with old | added
        · exact Nat.lt_succ_of_lt (reached.allocated hash handle old)
        · obtain ⟨wait, waitMember, rfl⟩ := added
          obtain ⟨target, _, rfl⟩ := List.mem_map.mp waitMember
          exact Nat.lt_succ_self _
      · exact kept message (reached.emittedInput message (by simpa [UntilImported.emitted] using member))
      · rw [Arcs.alloc_cells] at held
        split at held
        · rw [← Option.some.inj held]
          exact arrived
        · exact kept message (reached.heldInput index message held)

theorem Reached.step {done : List (Event H N (CommunicationIn H N))} {s : UntilGlobalMessageBlocksImported H N}
    (reached : Reached done s) (event : Event H N (CommunicationIn H N)) :
    Reached (done ++ [event]) (UntilImported.step globalMessage event s) := by
  have grown : ∀ {t : UntilGlobalMessageBlocksImported H N}, Reached done t → Reached (done ++ [event]) t :=
    fun earlier => ⟨earlier.allocated,
      fun message member => Event.mem_inputs_append (earlier.emittedInput message member),
      fun index message held => Event.mem_inputs_append (earlier.heldInput index message held)⟩
  cases event with
  | input input => exact reached.pushInput input
  | blockImported hash number => exact grown (reached.congr rfl rfl rfl)
  | importNotification hash number => exact grown (reached.completeWaits hash number)
  | checkPending => exact grown reached.checkPending
  | pollReady =>
    apply grown
    apply reached.congr
    · rcases s with ⟨status, _ | _, pending, shared, yielded⟩ <;> rfl
    · rcases s with ⟨status, _ | _, pending, shared, yielded⟩ <;> rfl
    · exact UntilImported.emitted_pollReady s

theorem reached_perform (status : H → Option N) (events : List (Event H N (CommunicationIn H N))) :
    Reached events (perform (UntilImported.step globalMessage) (UntilImported.new status Arcs.empty) events) :=
  perform_invariant _ Reached (Reached.initial status) (fun _ _ event reached => reached.step event) events

theorem isSome_foldlM_queryKnown (status : H → Option N) (targets : List (Target H N)) :
    (targets.foldlM (queryKnown status) ([], 0)).isSome = true ↔ Accepted status targets := by
  have loop := @Checked.foldlM _ _ _ _ status targets _ _ Checked.initial
  simp only [List.nil_append] at loop
  cases looked : targets.foldlM (queryKnown status) ([], 0) with
  | none =>
    simp only [Option.isSome_none, Bool.false_eq_true, false_iff]
    exact loop.1 looked
  | some checked =>
    simp only [Option.isSome_some, true_iff]
    exact (loop.2 checked looked).accepted

/-- Where a new global message stands right after its input: dropped, ready,
or waiting on the targets the oracle does not know. -/
theorem Reached.tracked_input {done : List (Event H N (CommunicationIn H N))}
    {s : UntilGlobalMessageBlocksImported H N} (reached : Reached done s) {message : CommunicationIn H N}
    (fresh : message ∉ Event.inputs done) :
    ∃ cell left, Tracked (UntilImported.pushInput globalMessage s message) cell message left
        (message.targets.foldlM (queryKnown s.status) ([], 0)).isSome ∧
      ∀ target, target ∈ left ↔
        target ∈ message.targets ∧ s.status target.hash = none ∧ Accepted s.status message.targets := by
  have unheld : ∀ index, (s.shared.cells index).message ≠ some message :=
    fun index held => fresh (reached.heldInput index message held)
  have notEmitted : (UntilImported.emitted s).count message = 0 :=
    List.count_eq_zero.mpr fun member => fresh (reached.emittedInput message member)
  have loop := @Checked.foldlM _ _ _ _ s.status message.targets _ _ Checked.initial
  simp only [List.nil_append] at loop
  rw [pushInput_global]
  cases looked : message.targets.foldlM (queryKnown s.status) ([], 0) with
  | none =>
    rw [scheduleWait_of_none looked]
    refine ⟨0, [], ⟨fun index _ => unheld index, List.nodup_nil, fun held => absurd held (unheld 0),
      fun _ => ⟨nofun, by simpa [UntilImported.emitted] using notEmitted⟩⟩, ?_⟩
    intro target
    simp only [List.not_mem_nil, false_iff, not_and]
    exact fun _ _ accepted => loop.1 looked accepted
  | some checked =>
    have facts := loop.2 checked looked
    by_cases known : checked.2 = 0
    · rw [scheduleWait_of_known looked known]
      refine ⟨0, [], ⟨fun index _ => unheld index, List.nodup_nil, fun held => absurd held (unheld 0),
        fun _ => ⟨fun _ => rfl, ?_⟩⟩, ?_⟩
      · simp only [Option.isSome_some, if_true]
        simp only [UntilImported.emitted, List.count_append] at notEmitted ⊢
        simp only [List.count_singleton_self]
        omega
      · intro target
        simp only [List.not_mem_nil, false_iff, not_and]
        intro member unknown _
        have waiting := (facts.unknown target).mpr ⟨member, unknown⟩
        have empty : unknownTargets checked.1 = [] :=
          List.eq_nil_of_length_eq_zero (by rw [← facts.count]; exact known)
        rw [empty] at waiting
        cases waiting
    · rw [scheduleWait_of_unknown looked known]
      refine ⟨s.shared.allocated, unknownTargets checked.1, ⟨?_, facts.distinct, fun _ => ⟨?_, ?_, ?_, ?_⟩, ?_⟩, ?_⟩
      · intro index different held
        rw [Arcs.alloc_cells, if_neg different] at held
        exact unheld index held
      · simp
      · simpa [UntilImported.emitted] using notEmitted
      · intro hash
        rw [cellHandles_foldl_wait, cellWaits_fresh, if_pos rfl]
        have none : cellHandles s.pending s.shared.allocated hash = [] :=
          cellWaits_eq_nil_iff.mpr fun handle member => Nat.ne_of_lt (reached.allocated hash handle member)
        rw [none, List.nil_append]
      · simp only [Option.isSome_some, if_true, Arcs.alloc_cells]
        exact ⟨facts.count, List.ne_nil_of_length_pos (by rw [← facts.count]; omega)⟩
      · intro notHeld
        simp [Arcs.alloc_cells] at notHeld
      · intro target
        rw [facts.unknown target]
        exact ⟨fun found => ⟨found.1, found.2, facts.accepted⟩, fun found => ⟨found.1, found.2.1⟩⟩

/-- The condition under which a followed message comes out, read on its
targets: each is known with the vote's number at the input, or unknown then
and first learned later with that number. -/
theorem release_iff {status : H → Option N} {targets left : List (Target H N)}
    (waited : ∀ target, target ∈ left ↔ target ∈ targets ∧ status target.hash = none ∧ Accepted status targets)
    (seen : H → Option N) :
    ((targets.foldlM (queryKnown status) ([], 0)).isSome = true ∧
        ∀ target ∈ left, seen target.hash = some target.number) ↔
      ∀ target ∈ targets, status target.hash = some target.number ∨
        (status target.hash = none ∧ seen target.hash = some target.number) := by
  rw [isSome_foldlM_queryKnown]
  constructor
  · rintro ⟨accepted, learned⟩ target member
    rcases accepted.1 target member with known | unknown
    · exact .inl known
    · exact .inr ⟨unknown, learned target ((waited target).mpr ⟨member, unknown, accepted⟩)⟩
  · intro settled
    have accepted : Accepted status targets := by
      refine ⟨fun target member => (settled target member).imp id And.left, ?_⟩
      intro first firstMember second secondMember sameHash
      rcases settled first firstMember with firstKnown | ⟨firstUnknown, firstSeen⟩ <;>
        rcases settled second secondMember with secondKnown | ⟨secondUnknown, secondSeen⟩
      · rw [sameHash, secondKnown] at firstKnown
        exact (Option.some.inj firstKnown).symm
      · rw [sameHash, secondUnknown] at firstKnown
        cases firstKnown
      · rw [sameHash, secondKnown] at firstUnknown
        cases firstUnknown
      · rw [sameHash, secondSeen] at firstSeen
        exact (Option.some.inj firstSeen).symm
    refine ⟨accepted, fun target member => ?_⟩
    obtain ⟨original, unknown, _⟩ := (waited target).mp member
    rcases settled target original with known | ⟨_, learned⟩
    · rw [unknown] at known
      cases known
    · exact learned

/-- A global message input once comes out of the stream at most once; it
comes out exactly when each of its targets is known with the vote's number
at its input, or is unknown then and the stream first learns the block later
with that number; so never when two votes give one hash two numbers or a
block is known or learned with another number; and a message whose targets
are all known at its input comes out at once, before anything input after
it. -/
theorem global_message_released_iff_known (status : H → Option N)
    (pre post : List (Event H N (CommunicationIn H N))) (message : CommunicationIn H N)
    (once : message ∉ Event.inputs pre ∧ message ∉ Event.inputs post) :
    let arrival := perform (UntilImported.step globalMessage) (UntilImported.new status Arcs.empty) pre
    let received := UntilImported.step globalMessage (.input message) arrival
    let final := perform (UntilImported.step globalMessage) received post
    (UntilImported.emitted final).count message ≤ 1 ∧
      ((UntilImported.emitted final).count message = 1 ↔
        ∀ target ∈ message.targets, arrival.status target.hash = some target.number ∨
          (arrival.status target.hash = none ∧
            UntilImported.firstSeen globalMessage received post target.hash = some target.number)) ∧
      ((∃ first ∈ message.targets, ∃ second ∈ message.targets,
            first.hash = second.hash ∧ first.number ≠ second.number) ∨
          (∃ target ∈ message.targets, ∃ number, number ≠ target.number ∧
            (arrival.status target.hash = some number ∨ (arrival.status target.hash = none ∧
              UntilImported.firstSeen globalMessage received post target.hash = some number))) →
        (UntilImported.emitted final).count message = 0) ∧
      ((∀ target ∈ message.targets, arrival.status target.hash = some target.number) →
        ∃ later, UntilImported.emitted final = UntilImported.emitted arrival ++ message :: later ∧
          ∀ other ∈ Event.inputs post, other ∉ Event.inputs pre → other ≠ message →
            other ∈ UntilImported.emitted final → other ∈ later) := by
  intro arrival received final
  have reached := reached_perform status pre
  obtain ⟨cell, left, tracked, waited⟩ := reached.tracked_input once.1
  have counted := tracked.count_perform once.2
  have release := release_iff waited fun hash => UntilImported.firstSeen globalMessage received post hash
  have atMostOnce : (UntilImported.emitted final).count message ≤ 1 := by
    change (UntilImported.emitted (perform (UntilImported.step globalMessage)
      (UntilImported.pushInput globalMessage arrival message) post)).count message ≤ 1
    rw [counted]
    split <;> omega
  have once_iff : (UntilImported.emitted final).count message = 1 ↔
      ∀ target ∈ message.targets, arrival.status target.hash = some target.number ∨
        (arrival.status target.hash = none ∧
          UntilImported.firstSeen globalMessage received post target.hash = some target.number) := by
    rw [← release]
    change (UntilImported.emitted (perform (UntilImported.step globalMessage)
      (UntilImported.pushInput globalMessage arrival message) post)).count message = 1 ↔ _
    rw [counted]
    split
    next settled => exact ⟨fun _ => settled, fun _ => rfl⟩
    next unsettled => exact ⟨nofun, fun settled => absurd settled unsettled⟩
  refine ⟨atMostOnce, once_iff, ?_, ?_⟩
  · intro conflict
    have never : ¬ ∀ target ∈ message.targets, arrival.status target.hash = some target.number ∨
        (arrival.status target.hash = none ∧
          UntilImported.firstSeen globalMessage received post target.hash = some target.number) := by
      intro settled
      rcases conflict with ⟨first, firstMember, second, secondMember, sameHash, different⟩ |
          ⟨target, member, number, different, learned⟩
      · apply different
        rcases settled first firstMember with firstKnown | ⟨firstUnknown, firstSeen⟩ <;>
          rcases settled second secondMember with secondKnown | ⟨secondUnknown, secondSeen⟩
        · rw [sameHash, secondKnown] at firstKnown
          exact (Option.some.inj firstKnown).symm
        · rw [sameHash, secondUnknown] at firstKnown
          cases firstKnown
        · rw [sameHash, secondKnown] at firstUnknown
          cases firstUnknown
        · rw [sameHash, secondSeen] at firstSeen
          exact (Option.some.inj firstSeen).symm
      · apply different
        rcases settled target member with known | ⟨unknown, seen⟩ <;>
          rcases learned with knownOther | ⟨unknownOther, seenOther⟩
        · rw [known] at knownOther
          exact (Option.some.inj knownOther).symm
        · rw [known] at unknownOther
          cases unknownOther
        · rw [unknown] at knownOther
          cases knownOther
        · rw [seen] at seenOther
          exact (Option.some.inj seenOther).symm
    have notOne := mt once_iff.mp never
    omega
  · intro allKnown
    have accepted : Accepted arrival.status message.targets := by
      refine ⟨fun target member => .inl (allKnown target member), ?_⟩
      intro first firstMember second secondMember sameHash
      have firstKnown := allKnown first firstMember
      rw [sameHash, allKnown second secondMember] at firstKnown
      exact (Option.some.inj firstKnown).symm
    obtain ⟨checked, looked⟩ :=
      Option.isSome_iff_exists.mp ((isSome_foldlM_queryKnown arrival.status message.targets).mpr accepted)
    have facts := (Checked.foldlM (show Checked arrival.status [] ([], 0) from Checked.initial)).2 checked looked
    simp only [List.nil_append] at facts
    have known : checked.2 = 0 := by
      rw [facts.count, List.length_eq_zero_iff, List.eq_nil_iff_forall_not_mem]
      intro target waiting
      obtain ⟨member, unknown⟩ := (facts.unknown target).mp waiting
      rw [allKnown target member] at unknown
      cases unknown
    have readied : UntilImported.emitted received = UntilImported.emitted arrival ++ [message] := by
      change UntilImported.emitted (UntilImported.pushInput globalMessage arrival message) = _
      rw [pushInput_global, scheduleWait_of_known looked known]
      simp [UntilImported.emitted]
    obtain ⟨later, extended⟩ := UntilImported.emitted_perform_prefix globalMessage received post
    refine ⟨later, ?_, ?_⟩
    · rw [← extended, readied, List.append_assoc, List.singleton_append]
    · intro other _ notBefore different member
      rw [← extended, readied, List.append_assoc, List.singleton_append] at member
      rcases List.mem_append.mp member with old | new
      · exact absurd (reached.emittedInput other old) notBefore
      · rcases List.mem_cons.mp new with same | rest
        · exact absurd same different
        · exact rest

/-- A commit with one vote on a known block and one on a block imported
after it comes out after the periodic check. -/
theorem global_message_released_after_check :
    (UntilImported.emitted (perform (UntilImported.step globalMessage)
      (UntilImported.step globalMessage (.input (.commit 0 [⟨1, 1⟩, ⟨2, 2⟩]))
        (perform (UntilImported.step globalMessage)
          (UntilImported.new (fun hash : Nat => if hash = 1 then some 1 else none) Arcs.empty) []))
      [.blockImported 2 2, .checkPending])).count (CommunicationIn.commit 0 [⟨1, 1⟩, ⟨2, 2⟩]) = 1 :=
  (global_message_released_iff_known (fun hash : Nat => if hash = 1 then some 1 else none) []
    [.blockImported 2 2, .checkPending] (.commit 0 [⟨1, 1⟩, ⟨2, 2⟩])
    ⟨by simp [Event.inputs], by simp [Event.inputs]⟩).2.1.mpr (by decide)

end Runs

end OffchainStorage.Grandpa
