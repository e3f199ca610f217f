import BufferManager.BufferItem
import BufferManager.LinkedList

/-!
# `StateManager`: the buffer manager's state and handlers

The faithful layer: `buffer_manager.rs` line by line, as functions from a state to
`Except Fault StateManager`.

* `StateManager` has the source's fields; the outbound channels (`execution_phase_tx`,
  `signing_phase_tx`, `persisting_phase_tx`, the network sender and the sync replies) are one log
  `sent` of everything sent, oldest first. The receivers are the `Event`s a run feeds in.
* One definition per method: `processOrderedBlocks`, `advanceExecutionRoot`,
  `advanceSigningRoot`, `advanceHead` (its `while let` loop is `advanceHeadLoop`),
  `resetAllRoots`, `processSyncRequest`, `processExecutionResponse`, `processSigningResponse`,
  `processCommitMessage`, `retryBroadcastingCommitVotes` (its loop is `retryLoop`).
* `startIteration` is one turn of `start`'s `while !self.end_epoch` loop: the `select!` arm of an
  event with its post-actions. `start` runs a list of events until `end_epoch` is set.

An `.await` on a send only suspends the task; the manager is the only task touching its state
(spec §5), so a send is an append to `sent`.
-/

namespace BufferManager

/-! ## Messages -/

/-- Blocks ordered by consensus, with their ordering proof and commit callback. Consensus never
orders an empty batch, and `block_id()` relies on it, so the list is non-empty.
Source: `OrderedBlocks` (`buffer_manager.rs` 51–55)
Kind: D -/
structure OrderedBlocks where
  /-- `ordered_blocks`. -/
  orderedBlocks : List ExecutedBlock
  /-- The batch is not empty. -/
  orderedBlocks_ne_nil : orderedBlocks ≠ []
  /-- `ordered_proof`. -/
  orderedProof : LedgerInfoWithSignatures
  /-- `callback`. -/
  callback : Callback
deriving DecidableEq, Repr

/-- The Ordered item `BufferItem::new_ordered` makes of a batch.
Source: `process_ordered_blocks` (143–148)
Kind: D -/
def OrderedBlocks.toItem (b : OrderedBlocks) : OrderedItem :=
  ⟨b.orderedBlocks, b.orderedBlocks_ne_nil, b.orderedProof, b.callback⟩

/-- A state-sync notification. Its one-shot reply channel `tx` is the `Output.syncAck` the handler
sends. Source: `SyncRequest` (`buffer_manager.rs` 45–49). Kind: D -/
structure SyncRequest where
  /-- `ledger_info`: the ledger info state sync reached. -/
  ledgerInfo : LedgerInfoWithSignatures
  /-- `reconfig`: the epoch ends. -/
  reconfig : Bool
deriving DecidableEq, Repr

/-- A request to the execution phase. Source: `execution_phase::ExecutionRequest`. Kind: D -/
structure ExecutionRequest where
  /-- `ordered_blocks`. -/
  orderedBlocks : List ExecutedBlock
deriving DecidableEq, Repr

/-- The execution phase's answer. Source: `execution_phase::ExecutionResponse`. Kind: D -/
structure ExecutionResponse where
  /-- `inner`: the executed blocks, or the execution error. -/
  inner : Except String (List ExecutedBlock)
deriving DecidableEq

/-- A request to the signing phase. Source: `signing_phase::SigningRequest`. Kind: D -/
structure SigningRequest where
  /-- `ordered_ledger_info`. -/
  orderedLedgerInfo : LedgerInfoWithSignatures
  /-- `commit_ledger_info`: what to sign. -/
  commitLedgerInfo : LedgerInfo
deriving DecidableEq, Repr

/-- The signing phase's answer; it echoes the ledger info it was asked to sign.
Source: `signing_phase::SigningResponse`
Kind: D -/
structure SigningResponse where
  /-- `signature_result`. -/
  signatureResult : Except String Signature
  /-- `commit_ledger_info`. -/
  commitLedgerInfo : LedgerInfo
deriving DecidableEq

/-- A request to the persisting phase. Source: `persisting_phase::PersistingRequest`. Kind: D -/
structure PersistingRequest where
  /-- `blocks`. -/
  blocks : List ExecutedBlock
  /-- `commit_ledger_info`: the aggregated proof. -/
  commitLedgerInfo : LedgerInfoWithSignatures
  /-- `callback`. -/
  callback : Callback
deriving DecidableEq, Repr

/-- A message from the network. Only commit votes reach the buffer manager; the other variants
carry nothing the handler reads. Source: `round_manager::VerifiedEvent`. Kind: D -/
inductive VerifiedEvent
  | commitVote (vote : CommitVote)
  | other
deriving DecidableEq, Repr

/-- One message on an outbound channel. Source: the sends of `buffer_manager.rs`. Kind: D -/
inductive Output
  /-- On `execution_phase_tx`. -/
  | executionRequest (r : ExecutionRequest)
  /-- On `signing_phase_tx`. -/
  | signingRequest (r : SigningRequest)
  /-- On `persisting_phase_tx`. -/
  | persistingRequest (r : PersistingRequest)
  /-- `commit_msg_tx.broadcast(ConsensusMsg::CommitVoteMsg(vote))`. -/
  | commitVote (vote : CommitVote)
  /-- `tx.send(sync_ack_new())` on a sync request's reply channel. -/
  | syncAck
deriving DecidableEq, Repr

/-- What one turn of `start`'s `select!` consumes. Source: the arms of `start` (411–445). Kind: D -/
inductive Event
  /-- `block_rx`. -/
  | orderedBlocks (blocks : OrderedBlocks)
  /-- `sync_rx`. -/
  | syncRequest (request : SyncRequest)
  /-- `execution_phase_rx`. -/
  | executionResponse (response : ExecutionResponse)
  /-- `signing_phase_rx`. -/
  | signingResponse (response : SigningResponse)
  /-- `commit_msg_rx`. -/
  | commitMessage (msg : VerifiedEvent)
  /-- `interval.tick()`. -/
  | tick
deriving DecidableEq

/-! ## The state -/

/-- The buffer manager. `buffer`, the two roots and `end_epoch` are the source's fields; `sent`
stands for the outbound channels.
Source: `StateManager` (`buffer_manager.rs` 64–90)
Kind: D -/
structure StateManager where
  /-- `author`: this validator. -/
  author : Author
  /-- `buffer`. -/
  buffer : LinkedList BufferItem
  /-- `execution_root`: the first item waiting for execution, if any. -/
  executionRoot : Link
  /-- `signing_root`: the first item waiting for signing, if any. -/
  signingRoot : Link
  /-- `end_epoch`. -/
  endEpoch : Bool
  /-- Everything sent on the outbound channels, oldest first. -/
  sent : List Output
deriving DecidableEq

namespace StateManager

/-- `StateManager::new(author, ...)`: an empty buffer, both roots at its (absent) head.
Source: `StateManager::new` (93–136)
Kind: D -/
def new (author : Author) : StateManager :=
  let buffer : LinkedList BufferItem := LinkedList.new
  ⟨author, buffer, buffer.head, buffer.head, false, []⟩

/-- Send one message. Source: the `send`/`broadcast` calls. Kind: D -/
def send (s : StateManager) (o : Output) : StateManager := { s with sent := s.sent ++ [o] }

/-- Source: none: infrastructure. Kind: L -/
@[simp] theorem send_buffer (s : StateManager) (o : Output) : (s.send o).buffer = s.buffer := rfl

/-- Source: none: infrastructure. Kind: L -/
@[simp] theorem send_executionRoot (s : StateManager) (o : Output) :
    (s.send o).executionRoot = s.executionRoot := rfl

/-- Source: none: infrastructure. Kind: L -/
@[simp] theorem send_signingRoot (s : StateManager) (o : Output) :
    (s.send o).signingRoot = s.signingRoot := rfl

/-- Source: none: infrastructure. Kind: L -/
@[simp] theorem send_endEpoch (s : StateManager) (o : Output) :
    (s.send o).endEpoch = s.endEpoch := rfl

/-- Source: none: infrastructure. Kind: L -/
@[simp] theorem send_author (s : StateManager) (o : Output) : (s.send o).author = s.author := rfl

/-- Source: none: infrastructure. Kind: L -/
@[simp] theorem send_sent (s : StateManager) (o : Output) : (s.send o).sent = s.sent ++ [o] := rfl

/-! ## Handlers -/

/-- Push the blocks to the buffer as a new Ordered item.
Source: `process_ordered_blocks` (140–150)
Kind: D -/
def processOrderedBlocks (s : StateManager) (b : OrderedBlocks) : StateManager :=
  let item := BufferItem.newOrdered b.toItem
  { s with buffer := s.buffer.pushBack item }

/-- Move the execution root to the first Ordered item from the root (or the head), and request its
execution. Source: `advance_execution_root` (154–164). Kind: D -/
def advanceExecutionRoot (s : StateManager) : Except Fault StateManager := do
  let cursor := s.executionRoot.or s.buffer.head
  let executionRoot ← s.buffer.findElem cursor BufferItem.isOrdered
  let s := { s with executionRoot }
  match executionRoot with
  | none => pure s
  | some _ =>
    let item ← s.buffer.getElem executionRoot
    pure (s.send (.executionRequest ⟨item.getBlocks⟩))

/-- Move the signing root to the first Executed item from the root (or the head), and request
its signature. Source: `advance_signing_root` (168–193). Kind: D -/
def advanceSigningRoot (s : StateManager) : Except Fault StateManager := do
  let cursor := s.signingRoot.or s.buffer.head
  let signingRoot ← s.buffer.findElem cursor BufferItem.isExecuted
  let s := { s with signingRoot }
  match signingRoot with
  | none => pure s
  | some _ =>
    let item ← s.buffer.getElem signingRoot
    match item with
    | .executed e =>
      let commitLedgerInfo ← e.commitLedgerInfo
      pure (s.send (.signingRequest ⟨e.orderedProof, commitLedgerInfo⟩))
    | _ => throw (.unreachable "")

/-- The `while let Some(item) = self.buffer.pop_front()` loop of `advance_head`, over the slots from
the head: pop, append the item's blocks, and stop at the item with the target's block id, which
must be Aggregated. Returns the persisting request and the number of nodes popped.
Source: `advance_head` (205–231)
Kind: D -/
def advanceHeadLoop (target : HashValue) :
    List (Slot BufferItem) → List ExecutedBlock → Except Fault (PersistingRequest × Nat)
  | [], _ => .error (.unreachable "Aggregated item not found in the list")
  | ⟨_, none⟩ :: _, _ => .error .unwrapNone
  | ⟨_, some item⟩ :: rest, blocks =>
    if item.blockId = target then
      match item with
      | .aggregated a => .ok (⟨blocks ++ item.getBlocks, a.aggregatedProof, a.callback⟩, 1)
      | _ => .error (.unreachable "Expect aggregated item")
    else (fun r => (r.1, r.2 + 1)) <$> advanceHeadLoop target rest (blocks ++ item.getBlocks)

/-- Pop the prefix of the buffer through the aggregated item and send one persisting request.
Source: `advance_head` (197–232)
Kind: D -/
def advanceHead (s : StateManager) (aggregatedCursor : Link) : Except Fault StateManager := do
  let item ← s.buffer.getElem aggregatedCursor
  if !item.isAggregated then throw (.assertion "item.is_aggregated()")
  let (request, popped) ← advanceHeadLoop item.blockId s.buffer.slots []
  pure ({ s with buffer := s.buffer.dropFront popped }.send (.persistingRequest request))

/-- Set both roots to `None`. Source: `reset_all_roots` (235–238). Kind: D -/
def resetAllRoots (s : StateManager) : StateManager :=
  { s with signingRoot := none, executionRoot := none }

/-- A sync request: on reconfiguration end the epoch; otherwise aggregate the matching item with
the ledger info, persist through it if that worked, and reset both roots. Ack in both cases.
Source: `process_sync_request` (246–282)
Kind: D -/
def processSyncRequest (v : ValidatorVerifier) (s : StateManager) (r : SyncRequest) :
    Except Fault StateManager := do
  let s ← if r.reconfig then pure { s with endEpoch := true } else do
    let cursor ← s.buffer.findElem s.buffer.head
      (fun item => item.blockId == r.ledgerInfo.commitInfo.id)
    let s ← match cursor with
      | none => pure s
      | some n => do
        let (bufferItem, buffer) ← s.buffer.takeElem n
        let attemptedItem := bufferItem.tryAdvanceToAggregatedWithLedgerInfo v r.ledgerInfo
        let s := { s with buffer := buffer.setElem n attemptedItem }
        if attemptedItem.isAggregated then advanceHead s cursor else pure s
    pure (resetAllRoots s)
  pure (s.send .syncAck)

/-- An execution response: fault on an execution error; otherwise find, from the execution root,
the item whose block id is the last executed block's, assert it is Ordered and make it Executed.
The search closure unwraps `executed_blocks.last()` when it first runs, that is, when the root is
not `None`. Source: `process_execution_response` (285–302). Kind: D -/
def processExecutionResponse (s : StateManager) (r : ExecutionResponse) :
    Except Fault StateManager := do
  let executedBlocks ← match r.inner with
    | .ok blocks => pure blocks
    | .error _ => throw (.expect "Execution failure")
  let currentCursor ← match s.executionRoot, executedBlocks.getLast? with
    | none, _ => pure none
    | some _, none => throw .unwrapNone
    | some _, some last => s.buffer.findElem s.executionRoot (fun item => item.blockId == last.id)
  match currentCursor with
  | none => pure s
  | some n =>
    let (bufferItem, buffer) ← s.buffer.takeElem n
    match bufferItem with
    | .ordered o => pure { s with buffer := buffer.setElem n (.executed (o.advanceToExecuted executedBlocks)) }
    | _ => throw (.assertion "buffer_item.is_ordered()")

/-- A signing response: drop it on a signing error; otherwise find, from the signing root, the
item of the signed commit info and, if it is Executed, make it Signed and broadcast the vote. An
item found in another state has been taken out of its slot and is not put back.
Source: `process_signing_response` (305–336)
Kind: D -/
def processSigningResponse (s : StateManager) (r : SigningResponse) :
    Except Fault StateManager := do
  match r.signatureResult with
  | .error _ => pure s
  | .ok signature =>
    let currentCursor ← s.buffer.findElem s.signingRoot
      (fun item => item.blockId == r.commitLedgerInfo.commitInfo.id)
    match currentCursor with
    | none => pure s
    | some n =>
      let (bufferItem, buffer) ← s.buffer.takeElem n
      match bufferItem with
      | .executed e =>
        let (signedBufferItem, commitVote) ← e.advanceToSigned s.author signature
        pure ({ s with buffer := buffer.setElem n (.signed signedBufferItem) }.send
          (.commitVote commitVote))
      | _ => pure { s with buffer }

/-- A commit vote: find its item from the head, add the signature if it matches, try to
aggregate, and return the item's cursor when it is now Aggregated.
Source: `process_commit_message` (341–375)
Kind: D -/
def processCommitMessage (v : ValidatorVerifier) (s : StateManager) (msg : VerifiedEvent) :
    Except Fault (StateManager × Option Link) := do
  match msg with
  | .commitVote vote =>
    let currentCursor ← s.buffer.findElem s.buffer.head
      (fun item => item.blockId == vote.commitInfo.id)
    match currentCursor with
    | none => pure (s, none)
    | some n =>
      let (bufferItem, buffer) ← s.buffer.takeElem n
      let newItem := bufferItem.withCommitVote v vote
      let s := { s with buffer := buffer.setElem n newItem }
      if newItem.isAggregated then pure (s, some currentCursor) else pure (s, none)
  | .other => throw (.unreachable "")

/-- The loop of `retry_broadcasting_commit_votes`, from the head until the signing root: collect
the commit vote of each Signed item. On an Aggregated item `continue` skips `cursor = next_cursor`,
so the loop re-tests the same node forever; on an Ordered or Executed item it reaches
`unreachable!()`. Source: `retry_broadcasting_commit_votes` (380–402). Kind: D -/
def retryLoop (signingRoot : Link) : List (Slot BufferItem) → Except Fault (List CommitVote)
  | [] => .ok []
  | ⟨n, elem⟩ :: rest =>
    if some n = signingRoot then .ok []
    else match elem with
      | none => .error .unwrapNone
      | some (.aggregated _) => .error .diverge
      | some (.signed signed) => (signed.commitVote :: ·) <$> retryLoop signingRoot rest
      | some _ => .error (.unreachable "")

/-- Re-broadcast the commit votes of the items before the signing root.
Source: `retry_broadcasting_commit_votes` (379–403)
Kind: D -/
def retryBroadcastingCommitVotes (s : StateManager) : Except Fault StateManager := do
  let votes ← retryLoop s.signingRoot s.buffer.slots
  pure { s with sent := s.sent ++ votes.map .commitVote }

/-! ## The event loop -/

/-- One turn of `start`'s loop: the `select!` arm of the event, then its post-actions.
Source: `start` (409–447)
Kind: D -/
def startIteration (v : ValidatorVerifier) (s : StateManager) : Event → Except Fault StateManager
  | .orderedBlocks blocks => do
    let s := s.processOrderedBlocks blocks
    if s.executionRoot.isNone then s.advanceExecutionRoot else pure s
  | .syncRequest resetEvent => do
    let s ← s.processSyncRequest v resetEvent
    let s ← if s.executionRoot.isNone then s.advanceExecutionRoot else pure s
    if s.signingRoot.isNone then s.advanceSigningRoot else pure s
  | .executionResponse response => do
    let s ← s.processExecutionResponse response
    let s ← s.advanceExecutionRoot
    if s.signingRoot.isNone then s.advanceSigningRoot else pure s
  | .signingResponse response => do
    let s ← s.processSigningResponse response
    s.advanceSigningRoot
  | .commitMessage commitMsg => do
    let (s, aggregated) ← s.processCommitMessage v commitMsg
    match aggregated with
    | some cursor => s.advanceHead cursor
    | none => pure s
  | .tick => s.retryBroadcastingCommitVotes

/-- `start`: run the events in order while `end_epoch` is unset.
Source: `start` (405–449)
Kind: D -/
def start (v : ValidatorVerifier) : StateManager → List Event → Except Fault StateManager
  | s, [] => .ok s
  | s, e :: es => if s.endEpoch then .ok s else s.startIteration v e >>= (start v · es)

/-- Once the epoch has ended the loop consumes nothing. Source: `start` (409). Kind: L -/
theorem start_of_endEpoch (v : ValidatorVerifier) {s : StateManager} (h : s.endEpoch = true)
    (es : List Event) : start v s es = .ok s := by
  cases es <;> simp [start, h]

/-- The loop on one more event: run the others, then this one unless the epoch has ended.
Source: `start` (405–449)
Kind: L -/
theorem start_append_singleton (v : ValidatorVerifier) (s : StateManager) (es : List Event)
    (e : Event) :
    start v s (es ++ [e]) =
      start v s es >>= fun s' => if s'.endEpoch then .ok s' else s'.startIteration v e := by
  induction es generalizing s with
  | nil =>
    by_cases h : s.endEpoch
    · simp [start, h]
    · rcases hs : s.startIteration v e <;> simp [start, h, hs]
  | cons e' es ih =>
    by_cases h : s.endEpoch
    · simp [start, h]
    · simp only [start, h, List.cons_append]
      cases s.startIteration v e' <;> simp [ih]

/-! ## A response turn keeps the epoch -/

section Frame

variable {v : ValidatorVerifier} {s s' : StateManager}

/-- Source: `advance_execution_root` (154–164). Kind: L -/
theorem advanceExecutionRoot_endEpoch (h : s.advanceExecutionRoot = .ok s') :
    s'.endEpoch = s.endEpoch := by
  obtain ⟨root, -, h⟩ := except_bind_eq_ok h
  split at h
  · cases h; rfl
  · obtain ⟨item, -, h⟩ := except_bind_eq_ok h
    cases h; rfl

/-- Source: `advance_signing_root` (168–193). Kind: L -/
theorem advanceSigningRoot_endEpoch (h : s.advanceSigningRoot = .ok s') :
    s'.endEpoch = s.endEpoch := by
  obtain ⟨root, -, h⟩ := except_bind_eq_ok h
  split at h
  · cases h; rfl
  · obtain ⟨item, -, h⟩ := except_bind_eq_ok h
    split at h
    · obtain ⟨li, -, h⟩ := except_bind_eq_ok h
      cases h; rfl
    · cases h

/-- Every branch of `process_execution_response` that returns changes only the buffer.
Source: `process_execution_response` (285–302)
Kind: L -/
theorem processExecutionResponse_endEpoch {r : ExecutionResponse}
    (h : s.processExecutionResponse r = .ok s') : s'.endEpoch = s.endEpoch := by
  simp only [processExecutionResponse, bind, Except.bind, pure, Except.pure, throw, throwThe,
    MonadExceptOf.throw] at h
  repeat' split at h
  all_goals (cases h <;> rfl)

/-- Every branch of `process_signing_response` changes only the buffer and the broadcasts.
Source: `process_signing_response` (305–336)
Kind: L -/
theorem processSigningResponse_endEpoch {r : SigningResponse}
    (h : s.processSigningResponse r = .ok s') : s'.endEpoch = s.endEpoch := by
  simp only [processSigningResponse, bind, Except.bind, pure, Except.pure] at h
  repeat' split at h
  all_goals (cases h <;> rfl)

/-- **An execution response never ends the epoch.** Source: `start` (427–433). Kind: L -/
theorem startIteration_executionResponse_endEpoch {r : ExecutionResponse}
    (h : s.startIteration v (.executionResponse r) = .ok s') : s'.endEpoch = s.endEpoch := by
  obtain ⟨s1, h1, h⟩ := except_bind_eq_ok h
  obtain ⟨s2, h2, h⟩ := except_bind_eq_ok h
  rw [← processExecutionResponse_endEpoch h1, ← advanceExecutionRoot_endEpoch h2]
  split at h
  · exact advanceSigningRoot_endEpoch h
  · cases h; rfl

/-- **A failed execution response is fatal**: `inner.expect("Execution failure")` faults the loop in
every state. `Admissible` delivers no such response, so the theorems on reachable states are about
runs in which the execution phase does not fail.
Source: `process_execution_response` (284–286); `start` (427–433)
Kind: L -/
theorem startIteration_executionResponse_error {r : ExecutionResponse} {err : String}
    (h : r.inner = .error err) :
    s.startIteration v (.executionResponse r) = .error (.expect "Execution failure") := by
  simp [startIteration, processExecutionResponse, h, bind, Except.bind, throw, throwThe,
    MonadExceptOf.throw]

/-- **A signing response never ends the epoch.** Source: `start` (434–437). Kind: L -/
theorem startIteration_signingResponse_endEpoch {r : SigningResponse}
    (h : s.startIteration v (.signingResponse r) = .ok s') : s'.endEpoch = s.endEpoch := by
  obtain ⟨s1, h1, h⟩ := except_bind_eq_ok h
  rw [← processSigningResponse_endEpoch h1, advanceSigningRoot_endEpoch h]

/-- Source: `advance_head` (197–232). Kind: L -/
theorem advanceHead_endEpoch {cursor : Link} (h : s.advanceHead cursor = .ok s') :
    s'.endEpoch = s.endEpoch := by
  simp only [advanceHead, bind, Except.bind, pure, Except.pure, throw, throwThe,
    MonadExceptOf.throw] at h
  repeat' split at h
  all_goals (cases h <;> rfl)

/-- Every branch of `process_commit_message` changes only the buffer.
Source: `process_commit_message` (341–375)
Kind: L -/
theorem processCommitMessage_endEpoch {m : VerifiedEvent} {cursor : Option Link}
    (h : s.processCommitMessage v m = .ok (s', cursor)) : s'.endEpoch = s.endEpoch := by
  simp only [processCommitMessage, bind, Except.bind, pure, Except.pure, throw, throwThe,
    MonadExceptOf.throw] at h
  repeat' split at h
  all_goals (cases h <;> rfl)

/-- **A commit message never ends the epoch.** Source: `start` (438–442). Kind: L -/
theorem startIteration_commitMessage_endEpoch {m : VerifiedEvent}
    (h : s.startIteration v (.commitMessage m) = .ok s') : s'.endEpoch = s.endEpoch := by
  obtain ⟨⟨s1, cursor⟩, h1, h⟩ := except_bind_eq_ok h
  rw [← processCommitMessage_endEpoch h1]
  dsimp only at h
  split at h
  · exact advanceHead_endEpoch h
  · cases h; rfl

end Frame

/-! ## A reconfiguration ends the loop -/

section Reconfig

variable {v : ValidatorVerifier}

/-- A reconfiguring sync request that returns has set `end_epoch`; the roots' advances after it
keep the flag. Source: `process_sync_request` (253–255); `start` (418–426). Kind: L -/
theorem startIteration_syncRequest_endEpoch {s s' : StateManager} {r : SyncRequest}
    (hrc : r.reconfig = true) (h : s.startIteration v (.syncRequest r) = .ok s') :
    s'.endEpoch = true := by
  obtain ⟨s1, h1, h⟩ := except_bind_eq_ok h
  obtain rfl : { s with endEpoch := true }.send .syncAck = s1 := by
    simpa [processSyncRequest, hrc] using h1
  have hlast {s2 : StateManager} (h2 : s2.endEpoch = true)
      (h : (if s2.signingRoot.isNone then s2.advanceSigningRoot else pure s2) = .ok s') :
      s'.endEpoch = true := by
    split at h
    · exact (advanceSigningRoot_endEpoch h).trans h2
    · cases h; exact h2
  dsimp only at h
  split at h
  · obtain ⟨s2, h2, h⟩ := except_bind_eq_ok h
    exact hlast (advanceExecutionRoot_endEpoch h2) h
  · exact hlast rfl h

end Reconfig

end StateManager

end BufferManager
