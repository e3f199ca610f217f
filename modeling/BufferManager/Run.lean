import BufferManager.Simulation

/-!
# Runs of the abstract handler

What a run has consumed and sent, read off the history of events and the log of outputs, and what
one `Pipeline.Step` does to the three runs. Every invariant of the next section is derived from
these shape lemmas, never from the constructors of `Step` again.

* `pushedItems`, `executionRequestIds`, `signingRequestIds`, `persistingRequests`,
  `executionResponseIds`, `signingResponseIds` — the bookkeeping of a run.
* `Admissible` — what the environment may deliver: batches with a fresh last block, responses to
  requests the manager sent, commit votes, sync requests and ticks.
* **`Step.requests_mem`** — every request a step sends is the request of the first Ordered or
  Executed item of the pipeline it leads to.
* **`Invariant.step`** — the run invariant is kept by every admissible step; it gives the shape
  of the buffer, the position of the requests, and the conservation of the pushed items
  (`Invariant.conservation`).
-/

namespace BufferManager

/-! ## What a run has consumed and sent -/

/-- The Ordered item an event pushes, if it is a batch. Source: `process_ordered_blocks`. Kind: D -/
@[simp] def Event.pushedItem? : Event → Option OrderedItem
  | .orderedBlocks b => some b.toItem
  | _ => none

/-- The block id a successful execution response is for: that of its last executed block.
Source: `process_execution_response` (291–293)
Kind: D -/
@[simp] def Event.executionResponseId? : Event → Option HashValue
  | .executionResponse r =>
    match r.inner with
    | .ok blocks => blocks.getLast?.map (·.id)
    | .error _ => none
  | _ => none

/-- The committed block id of a signing response, failed or not.
Source: `process_signing_response` (312–315)
Kind: D -/
@[simp] def Event.signingResponseId? : Event → Option HashValue
  | .signingResponse r => some r.commitLedgerInfo.commitInfo.id
  | _ => none

/-- The block id of an execution request: that of its last block. Source: none: bookkeeping.
Kind: D -/
@[simp] def Output.executionRequestId? : Output → Option HashValue
  | .executionRequest r => r.orderedBlocks.getLast?.map (·.id)
  | _ => none

/-- The committed block id of a signing request. Source: none: bookkeeping. Kind: D -/
@[simp] def Output.signingRequestId? : Output → Option HashValue
  | .signingRequest r => some r.commitLedgerInfo.commitInfo.id
  | _ => none

/-- The persisting request an output is, if it is one. Source: none: bookkeeping. Kind: D -/
@[simp] def Output.persistingRequest? : Output → Option PersistingRequest
  | .persistingRequest r => some r
  | _ => none

/-- The Ordered items the batches of a history make, in arrival order.
Source: `process_ordered_blocks` (140–150)
Kind: D -/
def pushedItems (h : List Event) : List OrderedItem := h.filterMap Event.pushedItem?

/-- Their block ids. Source: none: bookkeeping. Kind: D -/
def pushedIds (h : List Event) : List HashValue := (pushedItems h).map OrderedItem.blockId

/-- The block ids of the execution requests sent. Source: none: bookkeeping. Kind: D -/
def executionRequestIds (outs : List Output) : List HashValue :=
  outs.filterMap Output.executionRequestId?

/-- The committed block ids of the signing requests sent. Source: none: bookkeeping. Kind: D -/
def signingRequestIds (outs : List Output) : List HashValue :=
  outs.filterMap Output.signingRequestId?

/-- The persisting requests sent, in order. Source: none: bookkeeping. Kind: D -/
def persistingRequests (outs : List Output) : List PersistingRequest :=
  outs.filterMap Output.persistingRequest?

/-- The block ids of the successful execution responses consumed. Source: none: bookkeeping.
Kind: D -/
def executionResponseIds (h : List Event) : List HashValue :=
  h.filterMap Event.executionResponseId?

/-- The committed block ids of the signing responses consumed, failed ones included.
Source: none: bookkeeping
Kind: D -/
def signingResponseIds (h : List Event) : List HashValue := h.filterMap Event.signingResponseId?

section Bookkeeping

variable (e : Event) (h h' : List Event) (o : Output) (os os' : List Output)

/-- Source: none: infrastructure. Kind: L -/
@[simp] theorem pushedItems_nil : pushedItems [] = [] := rfl
/-- Source: none: infrastructure. Kind: L -/
@[simp] theorem pushedItems_cons : pushedItems (e :: h) = e.pushedItem?.toList ++ pushedItems h := by
  rw [pushedItems, List.filterMap_cons]
  cases e.pushedItem? <;> rfl
/-- Source: none: infrastructure. Kind: L -/
@[simp] theorem pushedItems_append : pushedItems (h ++ h') = pushedItems h ++ pushedItems h' :=
  List.filterMap_append _ _ _
/-- Source: none: infrastructure. Kind: L -/
@[simp] theorem pushedIds_append : pushedIds (h ++ h') = pushedIds h ++ pushedIds h' := by
  simp [pushedIds]

/-- Source: none: infrastructure. Kind: L -/
@[simp] theorem executionResponseIds_nil : executionResponseIds [] = [] := rfl
/-- Source: none: infrastructure. Kind: L -/
@[simp] theorem executionResponseIds_cons :
    executionResponseIds (e :: h) = e.executionResponseId?.toList ++ executionResponseIds h := by
  rw [executionResponseIds, List.filterMap_cons]
  cases e.executionResponseId? <;> rfl
/-- Source: none: infrastructure. Kind: L -/
@[simp] theorem executionResponseIds_append :
    executionResponseIds (h ++ h') = executionResponseIds h ++ executionResponseIds h' :=
  List.filterMap_append _ _ _

/-- Source: none: infrastructure. Kind: L -/
@[simp] theorem signingResponseIds_nil : signingResponseIds [] = [] := rfl
/-- Source: none: infrastructure. Kind: L -/
@[simp] theorem signingResponseIds_cons :
    signingResponseIds (e :: h) = e.signingResponseId?.toList ++ signingResponseIds h := by
  rw [signingResponseIds, List.filterMap_cons]
  cases e.signingResponseId? <;> rfl
/-- Source: none: infrastructure. Kind: L -/
@[simp] theorem signingResponseIds_append :
    signingResponseIds (h ++ h') = signingResponseIds h ++ signingResponseIds h' :=
  List.filterMap_append _ _ _

/-- Source: none: infrastructure. Kind: L -/
@[simp] theorem executionRequestIds_nil : executionRequestIds [] = [] := rfl
/-- Source: none: infrastructure. Kind: L -/
@[simp] theorem executionRequestIds_cons :
    executionRequestIds (o :: os) = o.executionRequestId?.toList ++ executionRequestIds os := by
  rw [executionRequestIds, List.filterMap_cons]
  cases o.executionRequestId? <;> rfl
/-- Source: none: infrastructure. Kind: L -/
@[simp] theorem executionRequestIds_append :
    executionRequestIds (os ++ os') = executionRequestIds os ++ executionRequestIds os' :=
  List.filterMap_append _ _ _

/-- Source: none: infrastructure. Kind: L -/
@[simp] theorem signingRequestIds_nil : signingRequestIds [] = [] := rfl
/-- Source: none: infrastructure. Kind: L -/
@[simp] theorem signingRequestIds_cons :
    signingRequestIds (o :: os) = o.signingRequestId?.toList ++ signingRequestIds os := by
  rw [signingRequestIds, List.filterMap_cons]
  cases o.signingRequestId? <;> rfl
/-- Source: none: infrastructure. Kind: L -/
@[simp] theorem signingRequestIds_append :
    signingRequestIds (os ++ os') = signingRequestIds os ++ signingRequestIds os' :=
  List.filterMap_append _ _ _

/-- Source: none: infrastructure. Kind: L -/
@[simp] theorem persistingRequests_nil : persistingRequests [] = [] := rfl
/-- Source: none: infrastructure. Kind: L -/
@[simp] theorem persistingRequests_cons :
    persistingRequests (o :: os) = o.persistingRequest?.toList ++ persistingRequests os := by
  rw [persistingRequests, List.filterMap_cons]
  cases o.persistingRequest? <;> rfl
/-- Source: none: infrastructure. Kind: L -/
@[simp] theorem persistingRequests_append :
    persistingRequests (os ++ os') = persistingRequests os ++ persistingRequests os' :=
  List.filterMap_append _ _ _

end Bookkeeping

/-- The events the environment may deliver after history `h`, the manager having sent `sent`: a
batch whose last block is new; an execution response, with blocks, to an execution request that
was sent; a signing response, failed or not, to a signing request that was sent; a commit vote;
any sync request; a tick. Source: spec §5 (the inputs of `start`). Kind: D -/
def Admissible (sent : List Output) (h : List Event) : Event → Prop
  | .orderedBlocks b => b.toItem.blockId ∉ pushedIds h
  | .executionResponse r =>
      ∃ b ∈ executionRequestIds sent, (Event.executionResponse r).executionResponseId? = some b
  | .signingResponse r => r.commitLedgerInfo.commitInfo.id ∈ signingRequestIds sent
  | .commitMessage m => m ≠ .other
  | .syncRequest _ => True
  | .tick => True

/-- Whether an event is admissible is decided by looking at the history and the outputs.
Source: none: infrastructure
Kind: D -/
instance Admissible.decidable (sent : List Output) (h : List Event) :
    (e : Event) → Decidable (Admissible sent h e)
  | .orderedBlocks _ => inferInstanceAs (Decidable (_ ∉ _))
  | .executionResponse _ => inferInstanceAs (Decidable (∃ b ∈ _, _))
  | .signingResponse _ => inferInstanceAs (Decidable (_ ∈ _))
  | .commitMessage _ => inferInstanceAs (Decidable (_ ≠ _))
  | .syncRequest _ => inferInstanceAs (Decidable True)
  | .tick => inferInstanceAs (Decidable True)

/-- Whether an output is a request to the execution or the signing phase.
Source: none: bookkeeping
Kind: D -/
def Output.isRequest : Output → Bool
  | .executionRequest _ | .signingRequest _ => true
  | _ => false

/-- What one `advance_head` call pops: some items, then the Aggregated item it pops through.
Source: `advance_head` (197–232)
Kind: D -/
structure Popped where
  /-- The items before the target, in buffer order. -/
  init : List BufferItem
  /-- The target. -/
  last : AggregatedItem

/-- The popped items, in buffer order. Source: `advance_head`. Kind: D -/
def Popped.items (q : Popped) : List BufferItem := q.init ++ [.aggregated q.last]

/-- The persisting request of a pop: the blocks of the popped items in order, with the target's
aggregated proof and callback. Source: `advance_head` (214–230). Kind: D -/
def Popped.request (q : Popped) : PersistingRequest :=
  ⟨q.items.flatMap BufferItem.getBlocks, q.last.aggregatedProof, q.last.callback⟩

/-- A ledger info the validator set stands behind: the authors of its signatures reach the quorum,
or the verifier accepts it as a whole. Source: spec §4.4. Kind: D -/
def Certified (v : ValidatorVerifier) (li : LedgerInfoWithSignatures) : Prop :=
  v.checkVotingPower (li.signatures.map Prod.fst) = true ∨ v.verifySignatures li = true

/-- Event `e` makes item `x` the Aggregated item `a`: a commit vote that `x` takes in and that
brings its signatures to the quorum, or a sync request without reconfiguration whose ledger info
`x` advances to.
Source: `process_commit_message` (352–363); `process_sync_request` (256–271)
Kind: D -/
def Event.Aggregates (v : ValidatorVerifier) (e : Event) (x : BufferItem) (a : AggregatedItem) :
    Prop :=
  (∃ vote, e = .commitMessage (.commitVote vote) ∧ x.withCommitVote v vote = .aggregated a) ∨
  ∃ r : SyncRequest, e = .syncRequest r ∧ r.reconfig = false ∧
    x.tryAdvanceToAggregatedWithLedgerInfo v r.ledgerInfo = .aggregated a

/-! ## The ids of the three runs -/

namespace Pipeline

/-- Block ids of the Ordered run. Source: none: abstraction. Kind: D -/
def orderedIds (p : Pipeline) : List HashValue := p.ordered.map (·.2.blockId)

/-- Block ids of the Executed run. Source: none: abstraction. Kind: D -/
def executedIds (p : Pipeline) : List HashValue := p.executed.map (·.2.blockId)

/-- Block ids of the buffer. Source: none: abstraction. Kind: D -/
def ids (p : Pipeline) : List HashValue := p.items.map (·.2.blockId)

/-- Source: none: infrastructure. Kind: L -/
theorem ids_eq (p : Pipeline) :
    p.ids = p.signed.map (·.2.blockId) ++ p.executedIds ++ p.orderedIds := by
  simp [ids, items, executedIds, orderedIds, Function.comp_def]

/-- Source: none: infrastructure. Kind: L -/
theorem orderedIds_subset_ids {p : Pipeline} {b : HashValue} (h : b ∈ p.orderedIds) :
    b ∈ p.ids := by
  rw [ids_eq]; simp [h]

/-- Source: none: infrastructure. Kind: L -/
theorem executedIds_subset_ids {p : Pipeline} {b : HashValue} (h : b ∈ p.executedIds) :
    b ∈ p.ids := by
  rw [ids_eq]; simp [h]

/-- The execution request of a pipeline is for the first Ordered item's block.
Source: `advance_execution_root` (157–163)
Kind: L -/
theorem executionRequestIds_executionRequests (p : Pipeline) :
    executionRequestIds p.executionRequests = p.orderedIds.head?.toList := by
  rcases hp : p.ordered with _ | ⟨⟨c, o⟩, rest⟩
  · simp [executionRequests, executionRequestIds, orderedIds, hp]
  · simp [executionRequests, executionRequestIds, orderedIds, hp, OrderedItem.blockId,
      List.getLast?_eq_getLast _ o.orderedBlocks_ne_nil]

/-- In a well-formed pipeline the signing request is for the first Executed item's block.
Source: `advance_signing_root` (171–189)
Kind: L -/
theorem signingRequestIds_signingRequests {p : Pipeline} (hw : p.WellFormed) :
    signingRequestIds p.signingRequests = p.executedIds.head?.toList := by
  rcases hp : p.executed with _ | ⟨⟨c, e⟩, rest⟩
  · simp [signingRequests, signingRequestIds, executedIds, hp]
  · obtain ⟨b, hb, hid⟩ : ∃ b, e.executedBlocks.getLast? = some b ∧ b.id = e.blockId := by
      simpa using hw.executed_last (c, e) (by simp [hp])
    simp [signingRequests, signingRequestIds, executedIds, hp,
      ExecutedItem.commitLedgerInfo_of_getLast? hb, Except.toOption, ExecutedBlock.blockInfo, hid]

end Pipeline

/-! ## What one step does to the three runs -/

namespace Pipeline

variable {v : ValidatorVerifier} {au : Author} {p p' : Pipeline} {e : Event} {outs : List Output}

/-- Signing keeps the block id. Source: none: infrastructure. Kind: L -/
theorem blockId_of_advanceToSigned {x : ExecutedItem} {a : Author} {sig : Signature}
    {si : SignedItem} {vote : CommitVote} (h : x.advanceToSigned a sig = .ok (si, vote)) :
    si.blockId = x.blockId := by
  rw [← (ExecutedItem.advanceToSigned_eq_ok h).1]

/-- A vote that leaves an item Signed keeps its block id. Source: none: infrastructure. Kind: L -/
theorem blockId_of_withCommitVote {vote : CommitVote} {si si' : SignedItem}
    (h : (BufferItem.signed si).withCommitVote v vote = .signed si') : si'.blockId = si.blockId := by
  have := congrArg BufferItem.blockId h
  simpa [BufferItem.blockId_eq] using this.symm

/-- Source: none: infrastructure. Kind: L -/
theorem mem_tail_of_mem_tail_drop {α : Type} {l : List α} {k : Nat} {b : α}
    (h : b ∈ (l.drop k).tail) : b ∈ l.tail := by
  rw [List.tail_drop, ← List.drop_tail] at h
  exact List.mem_of_mem_drop h

/-- **Item ids** after a step were there before, or arrive with the event.
Source: none: infrastructure
Kind: L -/
theorem Step.ids_subset (hs : p.Step v au e p' outs) :
    ∀ b ∈ p'.ids, b ∈ p.ids ∨ b ∈ pushedIds [e] := by
  cases hs with
  | push n b => simp [ids, items_push, pushedIds, pushedItems]
  | @execute r blocks hok =>
    rcases execute_cases p blocks with ⟨-, h⟩ | ⟨n, o, rest, hp, -, h⟩ <;> rw [h]
    · exact fun b hb => .inl hb
    · intro b hb
      left
      simpa [ids_eq, executedIds, orderedIds, hp] using hb
  | @sign r c x rest sig si vote hp he hsig hadv =>
    intro b hb
    left
    simpa [ids_eq, executedIds, sign_of_cons hp, hp, blockId_of_advanceToSigned hadv] using hb
  | @vote vote A B c si si' hAB hsi =>
    intro b hb
    left
    simpa [ids_eq, hAB, blockId_of_withCommitVote hsi] using hb
  | @voteAggregate vote A B c si a hAB ha =>
    intro b hb
    left
    rw [ids_eq] at hb ⊢
    simp only [hAB, List.map_append, List.map_cons, List.mem_append, List.mem_cons] at hb ⊢
    tauto
  | @syncAggregate r hrc A B c x hitems hid hver =>
    intro b hb
    left
    rw [ids, items_dropItems] at hb
    exact List.map_subset _ (fun _ => List.mem_of_mem_drop) hb
  | signNothing | voteNothing | syncNothing | syncReconfig | tick => exact fun b hb => .inl hb

/-- **The Ordered run** after a step holds items of the old one, and the pushed one.
Source: none: infrastructure
Kind: L -/
theorem Step.orderedIds_subset (hs : p.Step v au e p' outs) :
    ∀ b ∈ p'.orderedIds, b ∈ p.orderedIds ∨ b ∈ pushedIds [e] := by
  cases hs with
  | push n b => simp [orderedIds, pushedIds, pushedItems]
  | @execute r blocks hok =>
    rcases execute_cases p blocks with ⟨-, h⟩ | ⟨n, o, rest, hp, -, h⟩ <;> rw [h]
    · exact fun b hb => .inl hb
    · intro b hb
      left
      simp_all [orderedIds]
  | @syncAggregate r hrc A B c x hitems hid hver =>
    intro b hb
    left
    simp only [orderedIds, dropItems_ordered] at hb ⊢
    exact List.map_subset _ (fun _ => List.mem_of_mem_drop) hb
  | @sign r c x rest sig si vote hp he hsig hadv =>
    exact fun b hb => .inl (by simpa [sign_of_cons hp, orderedIds] using hb)
  | signNothing | voteNothing | vote | voteAggregate | syncNothing | syncReconfig | tick =>
    exact fun b hb => .inl hb

/-- Behind the first Ordered item after a step stand items that stood behind it before, and the
pushed one. Source: none: infrastructure. Kind: L -/
theorem Step.orderedIds_tail_subset (hs : p.Step v au e p' outs) :
    ∀ b ∈ p'.orderedIds.tail, b ∈ p.orderedIds.tail ∨ b ∈ pushedIds [e] := by
  cases hs with
  | push n b =>
    intro x hx
    rcases hp : p.ordered with _ | ⟨y, ys⟩
    · simp [orderedIds, hp] at hx
    · simpa [orderedIds, hp, pushedIds, pushedItems] using hx
  | @execute r blocks hok =>
    rcases execute_cases p blocks with ⟨-, h⟩ | ⟨n, o, rest, hp, -, h⟩ <;> rw [h]
    · exact fun b hb => .inl hb
    · intro b hb
      left
      simp only [orderedIds, hp, List.map_cons, List.tail_cons] at hb ⊢
      exact List.mem_of_mem_tail hb
  | @syncAggregate r hrc A B c x hitems hid hver =>
    intro b hb
    left
    rw [orderedIds, dropItems_ordered, List.map_drop] at hb
    exact mem_tail_of_mem_tail_drop hb
  | @sign r c x rest sig si vote hp he hsig hadv =>
    exact fun b hb => .inl (by simpa [sign_of_cons hp, orderedIds] using hb)
  | signNothing | voteNothing | vote | voteAggregate | syncNothing | syncReconfig | tick =>
    exact fun b hb => .inl hb

/-- Behind the first Executed item after a step stand items that stood behind it before, and
items that were Ordered. Source: none: infrastructure. Kind: L -/
theorem Step.executedIds_tail_subset (hs : p.Step v au e p' outs) :
    ∀ b ∈ p'.executedIds.tail, b ∈ p.executedIds.tail ∨ b ∈ p.orderedIds := by
  cases hs with
  | @execute r blocks hok =>
    rcases execute_cases p blocks with ⟨-, h⟩ | ⟨n, o, rest, hp, -, h⟩ <;> rw [h]
    · exact fun b hb => .inl hb
    · intro b hb
      rcases he : p.executed with _ | ⟨y, ys⟩
      · simp [executedIds, he] at hb
      · have : b ∈ ys.map (·.2.blockId) ∨ b = o.blockId := by simpa [executedIds, he] using hb
        rcases this with hb | rfl
        · exact .inl (by simpa [executedIds, he] using hb)
        · exact .inr (by simp [orderedIds, hp])
  | @sign r c x rest sig si vote hp he hsig hadv =>
    intro b hb
    left
    simp only [sign_of_cons hp, executedIds, hp, List.map_cons, List.tail_cons] at hb ⊢
    exact List.mem_of_mem_tail hb
  | @syncAggregate r hrc A B c x hitems hid hver =>
    intro b hb
    left
    rw [executedIds, dropItems_executed, List.map_drop] at hb
    exact mem_tail_of_mem_tail_drop hb
  | push n b => exact fun b hb => .inl (by simpa [executedIds] using hb)
  | signNothing | voteNothing | vote | voteAggregate | syncNothing | syncReconfig | tick =>
    exact fun b hb => .inl hb

/-! ## What one step sends -/

/-- What `signingRequests` holds are signing requests. Source: none: infrastructure. Kind: L -/
theorem exists_of_mem_signingRequests {q : Pipeline} {o : Output} (h : o ∈ q.signingRequests) :
    ∃ r, o = .signingRequest r := by
  simp only [signingRequests, List.mem_filterMap, Option.map_eq_some'] at h
  obtain ⟨_, _, _, _, rfl⟩ := h
  exact ⟨_, rfl⟩

/-- Source: none: infrastructure. Kind: L -/
@[simp] theorem executionRequestIds_signingRequests (q : Pipeline) :
    executionRequestIds q.signingRequests = [] :=
  List.filterMap_eq_nil_iff.mpr fun _ ho => by
    obtain ⟨r, rfl⟩ := exists_of_mem_signingRequests ho
    rfl

/-- Source: none: infrastructure. Kind: L -/
@[simp] theorem persistingRequests_signingRequests (q : Pipeline) :
    persistingRequests q.signingRequests = [] :=
  List.filterMap_eq_nil_iff.mpr fun _ ho => by
    obtain ⟨r, rfl⟩ := exists_of_mem_signingRequests ho
    rfl

/-- Source: none: infrastructure. Kind: L -/
@[simp] theorem signingRequestIds_executionRequests (q : Pipeline) :
    signingRequestIds q.executionRequests = [] := by
  simp [executionRequests, signingRequestIds]

/-- Source: none: infrastructure. Kind: L -/
@[simp] theorem persistingRequests_executionRequests (q : Pipeline) :
    persistingRequests q.executionRequests = [] := by
  simp [executionRequests, persistingRequests]

/-- Re-broadcast votes are no execution requests. Source: none: infrastructure. Kind: L -/
@[simp] theorem executionRequestIds_map_commitVote {α : Type} (l : List α) (f : α → CommitVote) :
    executionRequestIds (l.map fun x => .commitVote (f x)) = [] :=
  List.filterMap_eq_nil_iff.mpr fun _ ho => by
    obtain ⟨x, -, rfl⟩ := List.mem_map.mp ho
    rfl

/-- **Every execution request a step sends is for the first Ordered item after it.**
Source: `advance_execution_root` (154–164), as `start` calls it
Kind: L -/
theorem Step.executionRequestIds_outs (hs : p.Step v au e p' outs) :
    ∀ b ∈ executionRequestIds outs, b ∈ p'.orderedIds.head? := by
  cases hs with
  | push n b => split <;> simp [executionRequestIds_executionRequests]
  | execute hok => split <;> simp [executionRequestIds_executionRequests]
  | syncNothing | syncAggregate => simp [executionRequestIds_executionRequests]
  | tick => simp [executionRequestIds, List.filterMap_map, Function.comp_def]
  | signNothing | sign | voteNothing | vote | voteAggregate | syncReconfig => simp

/-- **Every signing request a step sends is for the first Executed item after it.**
Source: `advance_signing_root` (168–193), as `start` calls it
Kind: L -/
theorem Step.signingRequestIds_outs (hs : p.Step v au e p' outs) (hw : p'.WellFormed) :
    ∀ b ∈ signingRequestIds outs, b ∈ p'.executedIds.head? := by
  cases hs with
  | push n b => split <;> simp
  | execute hok => split <;> simp [signingRequestIds_signingRequests hw]
  | signNothing | sign | syncNothing | syncAggregate => simp [signingRequestIds_signingRequests hw]
  | tick => simp [signingRequestIds, List.filterMap_map, Function.comp_def]
  | voteNothing | vote | voteAggregate | syncReconfig => simp

/-- **A step sends requests only for the first Ordered and the first Executed item of the
pipeline it leads to**: each is that item's execution or signing request.
Source: `advance_execution_root`, `advance_signing_root`, as `start` calls them
Kind: L -/
theorem Step.requests_mem (hs : p.Step v au e p' outs) :
    ∀ o ∈ outs, o.isRequest = true → o ∈ p'.executionRequests ∨ o ∈ p'.signingRequests := by
  cases hs with
  | push n b => split <;> simp_all
  | execute hok => split <;> simp_all
  | tick =>
    simp only [List.mem_map]
    rintro _ ⟨_, -, rfl⟩ h
    cases h
  | signNothing | sign | syncNothing | syncAggregate | voteNothing | vote | voteAggregate
    | syncReconfig => simp_all [Output.isRequest]

/-! ## What one step keeps -/

/-- A signed item's vote commits its own block, when its executed blocks end with it.
Source: spec §4.1 `advance_to_signed`
Kind: L -/
theorem signedCommit_of_advanceToSigned {x : ExecutedItem} {a : Author} {sig : Signature}
    {si : SignedItem} {vote : CommitVote}
    (hlast : x.executedBlocks.getLast?.map (·.id) = some x.blockId)
    (h : x.advanceToSigned a sig = .ok (si, vote)) :
    si.commitVote.ledgerInfo.commitInfo.id = si.blockId := by
  obtain ⟨hx, hv, hli⟩ := ExecutedItem.advanceToSigned_eq_ok h
  obtain ⟨b, hb, hid⟩ : ∃ b, x.executedBlocks.getLast? = some b ∧ b.id = x.blockId := by
    simpa using hlast
  rw [ExecutedItem.commitLedgerInfo_of_getLast? hb, Except.ok.injEq] at hli
  rw [blockId_of_advanceToSigned h, hv, ← hli]
  exact hid

/-- **A step keeps the pipeline well formed**, when a pushed batch brings a new block id.
Source: spec §3, §8 properties 1 and 4
Kind: L -/
theorem Step.wellFormed (hs : p.Step v au e p' outs) (hw : p.WellFormed)
    (hfresh : ∀ b ∈ pushedIds [e], b ∉ p.ids) : p'.WellFormed := by
  cases hs with
  | push n b =>
    have hb := hfresh b.toItem.blockId (by simp [pushedIds])
    refine ⟨?_, hw.executed_last, hw.signed_commit⟩
    rw [items_push, List.map_append, List.nodup_append]
    exact ⟨hw.ids_nodup, List.nodup_singleton _, by simpa [ids] using hb⟩
  | @execute r blocks hok =>
    rcases execute_cases p blocks with ⟨-, h⟩ | ⟨n, o, rest, hp, hlast, h⟩ <;> rw [h]
    · exact hw
    · refine ⟨?_, ?_, hw.signed_commit⟩
      · have hids : ({ p with
            executed := p.executed ++ [(n, o.advanceToExecuted blocks)]
            ordered := rest } : Pipeline).ids = p.ids := by
          simp [ids_eq, executedIds, orderedIds, hp]
        exact (congrArg List.Nodup hids).mpr hw.ids_nodup
      · simp only [List.mem_append, List.mem_singleton]
        rintro x (hx | rfl)
        · exact hw.executed_last x hx
        · simpa using hlast
  | @sign r c x rest sig si vote hp he hsig hadv =>
    rw [sign_of_cons hp]
    have hx : x.executedBlocks.getLast?.map (·.id) = some x.blockId :=
      hw.executed_last (c, x) (by simp [hp])
    refine ⟨?_, fun y hy => hw.executed_last y (by simp [hp, hy]), ?_⟩
    · have hids : ({ p with signed := p.signed ++ [(c, si)], executed := rest } : Pipeline).ids =
          p.ids := by simp [ids_eq, executedIds, orderedIds, hp, blockId_of_advanceToSigned hadv]
      exact (congrArg List.Nodup hids).mpr hw.ids_nodup
    · simp only [List.mem_append, List.mem_singleton]
      rintro y (hy | rfl)
      · exact hw.signed_commit y hy
      · exact signedCommit_of_advanceToSigned hx hadv
  | @vote vote A B c si si' hAB hsi =>
    obtain ⟨hex, hcv⟩ := BufferItem.withCommitVote_eq_signed hsi
    refine ⟨?_, hw.executed_last, ?_⟩
    · have hids : ({ p with signed := A ++ (c, si') :: B } : Pipeline).ids = p.ids := by
        simp [ids_eq, executedIds, orderedIds, hAB, blockId_of_withCommitVote hsi]
      exact (congrArg List.Nodup hids).mpr hw.ids_nodup
    · have hsc := hw.signed_commit
      rw [hAB] at hsc
      simp only [List.mem_append, List.mem_cons]
      rintro y (hy | rfl | hy)
      · exact hsc y (by simp [hy])
      · rw [hcv, blockId_of_withCommitVote hsi]
        exact hsc (c, si) (by simp)
      · exact hsc y (by simp [hy])
  | @voteAggregate vote A B c si a hAB ha =>
    refine ⟨?_, hw.executed_last, fun y hy => hw.signed_commit y (by simp [hAB, hy])⟩
    have hids : p.ids = (A.map (·.2.blockId) ++ [si.blockId]) ++
        ({ p with signed := B } : Pipeline).ids := by simp [ids_eq, executedIds, orderedIds, hAB]
    exact ((congrArg List.Nodup hids).mp hw.ids_nodup).of_append_right
  | syncAggregate => exact hw.dropItems _
  | signNothing | voteNothing | syncNothing | syncReconfig | tick => exact hw

/-- **The first Ordered item after a step** is the one before, or its execution was requested in
the step. Source: `start` (412–433): every arm that can move it calls `advance_execution_root`.
Kind: L -/
theorem Step.executionRoot_or_requested (hs : p.Step v au e p' outs) :
    p'.ordered.head? = p.ordered.head? ∨ ∀ o ∈ p'.executionRequests, o ∈ outs := by
  cases hs with
  | push n b =>
    by_cases hp : p.ordered = []
    · exact .inr fun o ho => by simp [hp, ho]
    · obtain ⟨x, xs, hx⟩ := List.exists_cons_of_ne_nil hp
      exact .inl (by simp [hx])
  | execute hok | syncNothing | syncAggregate => exact .inr fun o ho => by simp [ho]
  | @sign r c x rest sig si vote hp he hsig hadv => exact .inl (by rw [sign_of_cons hp])
  | signNothing | voteNothing | vote | voteAggregate | syncReconfig | tick => exact .inl rfl

/-- **The first Executed item after a step** is the one before and the event was no signing
response, or its signature was requested in the step.
Source: `start` (427–437): every arm that can move it calls `advance_signing_root`
Kind: L -/
theorem Step.signingRoot_or_requested (hs : p.Step v au e p' outs) :
    (p'.executed.head? = p.executed.head? ∧ signingResponseIds [e] = []) ∨
      ∀ o ∈ p'.signingRequests, o ∈ outs := by
  cases hs with
  | @execute r blocks hok =>
    by_cases he : p.executed = []
    · exact .inr fun o ho => by simp [he, ho]
    · refine .inl ⟨?_, rfl⟩
      obtain ⟨x, xs, hx⟩ := List.exists_cons_of_ne_nil he
      rcases execute_cases p blocks with ⟨-, h⟩ | ⟨n, o, rest, -, -, h⟩ <;> rw [h]
      simp [hx]
  | signNothing | sign | syncNothing | syncAggregate => exact .inr fun o ho => by simp [ho]
  | push | voteNothing | vote | voteAggregate | syncReconfig | tick => exact .inl ⟨rfl, rfl⟩

/-- **A consumed execution response leaves no Ordered item of its block**, when no Ordered item
but the first has that block. Source: `process_execution_response` (285–302). Kind: L -/
theorem Step.executionResponse_not_ordered (hs : p.Step v au e p' outs)
    (hnd : p.orderedIds.Nodup) :
    ∀ b ∈ executionResponseIds [e], b ∉ p.orderedIds.tail → b ∉ p'.orderedIds := by
  cases hs with
  | @execute r blocks hok =>
    intro b hb htail
    have hlast : blocks.getLast?.map (·.id) = some b := by simpa [hok] using hb
    rcases execute_cases p blocks with ⟨hno, h⟩ | ⟨n, o, rest, hp, hguard, h⟩ <;> rw [h]
    · rcases hp : p.ordered with _ | ⟨⟨n, o⟩, rest⟩
      · simp [orderedIds, hp]
      · have hne : b ≠ o.blockId := fun hb' => hno n o rest hp (hb' ▸ hlast)
        simp only [orderedIds, hp, List.map_cons, List.tail_cons] at htail ⊢
        exact fun hmem => (List.mem_cons.mp hmem).elim hne htail
    · have hb : b = o.blockId := Option.some.inj (hlast.symm.trans hguard)
      simp only [orderedIds, hp, List.map_cons, List.nodup_cons] at hnd
      simpa [orderedIds, hb] using hnd.1
  | push | signNothing | sign | voteNothing | vote | voteAggregate | syncNothing | syncAggregate
    | syncReconfig | tick => simp

/-- **What a step pops**: nothing, the items then being the old ones and the pushed one; or one
`Popped` whose request is the one persisting request sent, whose items are the buffer's prefix,
and whose target's proof commits the target's block.
Source: `advance_head` (197–232), from `process_commit_message` and `process_sync_request`
Kind: L -/
theorem Step.popped (hs : p.Step v au e p' outs) (hw : p.WellFormed) :
    (persistingRequests outs = [] ∧
      p.items.map (·.2.origin) ++ pushedItems [e] = p'.items.map (·.2.origin)) ∨
    ∃ q : Popped, persistingRequests outs = [q.request] ∧ pushedItems [e] = [] ∧
      p.items.map (·.2.origin) = q.items.map BufferItem.origin ++ p'.items.map (·.2.origin) ∧
      q.last.aggregatedProof.commitInfo.id = q.last.blockId := by
  cases hs with
  | push n b => exact .inl ⟨by split <;> simp, by simp [items_push]⟩
  | @execute r blocks hok =>
    refine .inl ⟨by split <;> simp, ?_⟩
    rcases execute_cases p blocks with ⟨-, h⟩ | ⟨n, o, rest, hp, -, h⟩ <;> rw [h]
    · simp
    · simp [items, hp]
  | @sign r c x rest sig si vote hp he hsig hadv =>
    refine .inl ⟨by simp, ?_⟩
    have ho := BufferItem.origin_advanceToSigned hadv
    simp only [BufferItem.origin] at ho
    simp [sign_of_cons hp, items, hp, ho]
  | @vote vote A B c si si' hAB hsi =>
    refine .inl ⟨by simp, ?_⟩
    have ho := congrArg ExecutedItem.toOrderedItem (BufferItem.withCommitVote_eq_signed hsi).1
    simp only at ho
    simp [items, hAB, ho]
  | @voteAggregate vote A B c si a hAB ha =>
    obtain ⟨ho, hproof, -⟩ := BufferItem.withCommitVote_eq_aggregated ha
    refine .inr ⟨⟨A.map (fun x : Nat × SignedItem => BufferItem.signed x.2), a⟩,
      by simp [Popped.request, Popped.items],
      by simp, by simp [items, hAB, Popped.items, ho, Function.comp_def], ?_⟩
    show a.aggregatedProof.ledgerInfo.commitInfo.id = a.toOrderedItem.blockId
    rw [hproof, ho]
    exact hw.signed_commit (c, si) (by simp [hAB])
  | @syncAggregate r hrc A B c x hitems hid hver =>
    refine .inr ⟨⟨A.map Prod.snd, { x.origin with aggregatedProof := r.ledgerInfo }⟩,
      by simp [Popped.request, Popped.items], by simp, ?_, hid.symm⟩
    rw [items_dropItems, hitems]
    simp [Popped.items, Function.comp_def]
  | signNothing | voteNothing | syncNothing | syncReconfig => exact .inl ⟨by simp, by simp⟩
  | tick => exact .inl ⟨by simp [persistingRequests, List.filterMap_map, Function.comp_def], by simp⟩

/-- **A step that persists pops the buffer through the item its own event aggregated**: it sends
no persisting request, or one, for the items before that item and the item made Aggregated, with
the new proof and callback; the item keeps its origin and its proof commits its block.
Source: `process_commit_message` (352–363); `process_sync_request` (256–276); `advance_head`
(197–232)
Kind: L -/
theorem Step.persisted_aggregated (hs : p.Step v au e p' outs) (hw : p.WellFormed) :
    persistingRequests outs = [] ∨
    ∃ A c x B a, p.items = A ++ (c, x) :: B ∧ e.Aggregates v x a ∧ p'.items = B ∧
      a.toOrderedItem = x.origin ∧ a.aggregatedProof.commitInfo.id = x.blockId ∧
      persistingRequests outs =
        [⟨(A.map Prod.snd ++ [.aggregated a]).flatMap BufferItem.getBlocks, a.aggregatedProof,
          a.callback⟩] := by
  cases hs with
  | @voteAggregate vote A B c si a hAB ha =>
    obtain ⟨ho, hproof, -⟩ := BufferItem.withCommitVote_eq_aggregated ha
    refine .inr ⟨A.map (Prod.map id .signed), c, .signed si, B.map (Prod.map id .signed) ++
      p.executed.map (Prod.map id .executed) ++ p.ordered.map (Prod.map id .ordered), a,
      by simp [items, hAB], .inl ⟨vote, rfl, ha⟩, by simp [items], ho, ?_,
      by simp [Function.comp_def]⟩
    show a.aggregatedProof.ledgerInfo.commitInfo.id = si.toOrderedItem.blockId
    rw [hproof]
    exact hw.signed_commit (c, si) (by simp [hAB])
  | @syncAggregate r hrc A B c x hitems hid hver =>
    have hagg := BufferItem.tryAdvanceToAggregatedWithLedgerInfo_of_verified
      (isAggregated_of_mem_items (by rw [hitems]; simp : (c, x) ∈ p.items)) hver hid.symm
    refine .inr ⟨A, c, x, B, _, hitems, .inr ⟨r, rfl, hrc, hagg⟩, ?_, rfl, hid.symm, by simp⟩
    rw [items_dropItems, hitems]
    simp
  | push | execute => exact .inl (by split <;> simp)
  | tick => exact .inl (by simp [persistingRequests, List.filterMap_map, Function.comp_def])
  | signNothing | sign | voteNothing | vote | syncNothing | syncReconfig => exact .inl (by simp)

/-- **Every persisting request a step sends is certified**: by the quorum of signatures the
commit vote completed, or by the verifier, which accepted the sync request's ledger info.
Source: `process_commit_message` (352–363); `process_sync_request` (262–271); `advance_head`
Kind: L -/
theorem Step.persisted_certified (hs : p.Step v au e p' outs) :
    ∀ r ∈ persistingRequests outs, Certified v r.commitLedgerInfo := by
  cases hs with
  | @voteAggregate vote A B c si a hAB ha =>
    simpa [persistingRequests] using .inl (BufferItem.withCommitVote_eq_aggregated ha).2.2
  | @syncAggregate r hrc A B c x hitems hid hver =>
    intro r' hr'
    obtain rfl : r' = _ := by simpa using hr'
    exact .inr hver
  | push | execute => split <;> simp
  | tick => simp [persistingRequests, List.filterMap_map, Function.comp_def]
  | signNothing | sign | voteNothing | vote | syncNothing | syncReconfig => simp

end Pipeline

/-! ## The run invariant -/

namespace Pipeline

/-- Source: none: infrastructure. Kind: L -/
theorem WellFormed.orderedIds_nodup {p : Pipeline} (hw : p.WellFormed) : p.orderedIds.Nodup := by
  have h := hw.ids_nodup
  rw [← ids, ids_eq] at h
  exact h.of_append_right

/-- Source: none: infrastructure. Kind: L -/
theorem WellFormed.executedIds_nodup {p : Pipeline} (hw : p.WellFormed) : p.executedIds.Nodup := by
  have h := hw.ids_nodup
  rw [← ids, ids_eq] at h
  exact h.of_append_left.of_append_right

/-- No block is both Executed and Ordered. Source: none: infrastructure. Kind: L -/
theorem WellFormed.not_mem_orderedIds {p : Pipeline} (hw : p.WellFormed) {b : HashValue}
    (hb : b ∈ p.executedIds) : b ∉ p.orderedIds := by
  have h := hw.ids_nodup
  rw [← ids, ids_eq, List.append_assoc] at h
  exact List.disjoint_of_nodup_append h.of_append_right hb

end Pipeline

/-- Source: none: infrastructure. Kind: L -/
theorem not_mem_tail_of_mem_head? {α : Type} {l : List α} {b : α} (hnd : l.Nodup)
    (hb : b ∈ l.head?) : b ∉ l.tail := by
  cases l with
  | nil => simp at hb
  | cons x xs =>
    obtain rfl : x = b := by simpa using hb
    exact (List.nodup_cons.mp hnd).1

/-- Source: none: infrastructure. Kind: L -/
theorem executionRequestIds_mono {l l' : List Output} (h : ∀ o ∈ l, o ∈ l') :
    ∀ b ∈ executionRequestIds l, b ∈ executionRequestIds l' := by
  simp only [executionRequestIds, List.mem_filterMap]
  exact fun b ⟨o, ho, hb⟩ => ⟨o, h o ho, hb⟩

/-- Source: none: infrastructure. Kind: L -/
theorem signingRequestIds_mono {l l' : List Output} (h : ∀ o ∈ l, o ∈ l') :
    ∀ b ∈ signingRequestIds l, b ∈ signingRequestIds l' := by
  simp only [signingRequestIds, List.mem_filterMap]
  exact fun b ⟨o, ho, hb⟩ => ⟨o, h o ho, hb⟩

section Admissible

variable {sent : List Output} {h : List Event} {e : Event}

/-- An admissible batch brings a block id not pushed before. Source: none: infrastructure.
Kind: L -/
theorem Admissible.fresh (ha : Admissible sent h e) : ∀ b ∈ pushedIds [e], b ∉ pushedIds h := by
  cases e with
  | orderedBlocks blocks =>
    simp only [Admissible] at ha
    simpa [pushedIds] using ha
  | _ => simp [pushedIds]

/-- An admissible execution response answers an execution request that was sent.
Source: none: infrastructure
Kind: L -/
theorem Admissible.executionResponse_requested (ha : Admissible sent h e) :
    ∀ b ∈ executionResponseIds [e], b ∈ executionRequestIds sent := by
  cases e with
  | executionResponse r =>
    obtain ⟨b, hmem, hb⟩ := ha
    intro b' hb'
    rw [executionResponseIds_cons, executionResponseIds_nil, List.append_nil, hb] at hb'
    obtain rfl : b' = b := by simpa using hb'
    exact hmem
  | _ => simp

end Admissible

/-- The invariant of a run that reached pipeline `p` after the history `h`, having sent `sent`:
the pipeline is well formed and holds pushed blocks; every request sent is for a pushed block, an
execution request for no Ordered item but the first, a signing request for no Executed item but
the first and for no Ordered item; every execution response consumed answered a request and its
block is no longer Ordered; the first Ordered item's execution was requested; and the pushed items
are the popped ones followed by the buffer, each persisting request being one pop's.
Source: spec §3, §8; the arms of `start`
Kind: D -/
structure Invariant (p : Pipeline) (h : List Event) (sent : List Output) : Prop where
  /-- Ids distinct, executed and signed data on the item's own block. -/
  wellFormed : p.WellFormed
  /-- The buffer holds pushed blocks. -/
  ids_pushed : ∀ b ∈ p.ids, b ∈ pushedIds h
  /-- Execution requests are for pushed blocks. -/
  executionRequested_pushed : ∀ b ∈ executionRequestIds sent, b ∈ pushedIds h
  /-- Signing requests are for pushed blocks. -/
  signingRequested_pushed : ∀ b ∈ signingRequestIds sent, b ∈ pushedIds h
  /-- No Ordered item behind the first has had its execution requested. -/
  executionRequested_not_tail : ∀ b ∈ executionRequestIds sent, b ∉ p.orderedIds.tail
  /-- No Executed item behind the first has had its signature requested. -/
  signingRequested_not_tail : ∀ b ∈ signingRequestIds sent, b ∉ p.executedIds.tail
  /-- No Ordered item has had its signature requested. -/
  signingRequested_not_ordered : ∀ b ∈ signingRequestIds sent, b ∉ p.orderedIds
  /-- Every execution response consumed answered a request. -/
  executionResponded_requested : ∀ b ∈ executionResponseIds h, b ∈ executionRequestIds sent
  /-- No Ordered item has had an execution response. -/
  executionResponded_not_ordered : ∀ b ∈ executionResponseIds h, b ∉ p.orderedIds
  /-- The first Ordered item's execution has been requested. -/
  executionRoot_requested : ∀ b ∈ p.orderedIds.head?, b ∈ executionRequestIds sent
  /-- The pushed items are the popped ones, pop after pop, then the buffer; the persisting
  requests are the pops' requests; each pop's target carries a proof of its own block. -/
  conservation : ∃ pops : List Popped,
    (pops.flatMap Popped.items ++ p.items.map Prod.snd).map BufferItem.origin = pushedItems h ∧
    persistingRequests sent = pops.map Popped.request ∧
    ∀ q ∈ pops, q.last.aggregatedProof.commitInfo.id = q.last.blockId

namespace Invariant

variable {v : ValidatorVerifier} {au : Author} {p p' : Pipeline} {h : List Event} {e : Event}
  {sent outs : List Output}

/-- The empty run. Source: `StateManager::new` (93–136). Kind: L -/
theorem init : Invariant ⟨[], [], []⟩ [] [] where
  wellFormed := ⟨by simp [Pipeline.items], by simp, by simp⟩
  ids_pushed := by simp [Pipeline.ids, Pipeline.items]
  executionRequested_pushed := by simp
  signingRequested_pushed := by simp
  executionRequested_not_tail := by simp
  signingRequested_not_tail := by simp
  signingRequested_not_ordered := by simp
  executionResponded_requested := by simp
  executionResponded_not_ordered := by simp
  executionRoot_requested := by simp [Pipeline.orderedIds]
  conservation := ⟨[], by simp [Pipeline.items, pushedItems], by simp, by simp⟩

/-- An invariant pipeline is ready for every admissible event.
Source: none: infrastructure
Kind: L -/
theorem ready (hi : Invariant p h sent) (ha : Admissible sent h e) : p.Ready e := by
  cases e with
  | executionResponse r =>
    obtain ⟨b, hmem, hb⟩ := ha
    intro blocks hin
    refine ⟨b, by simpa [hin] using hb, fun x hx hxb => hi.executionRequested_not_tail b hmem ?_⟩
    rw [Pipeline.orderedIds, ← List.map_tail, ← hxb]
    exact List.mem_map_of_mem _ hx
  | signingResponse r =>
    refine ⟨fun x hx hxb => hi.signingRequested_not_tail _ ha ?_,
      fun x hx hxb => hi.signingRequested_not_ordered _ ha ?_⟩
    · rw [Pipeline.executedIds, ← List.map_tail, ← hxb]
      exact List.mem_map_of_mem _ hx
    · rw [Pipeline.orderedIds, ← hxb]
      exact List.mem_map_of_mem _ hx
  | _ => trivial

/-- **The run invariant is kept by every admissible step.**
Source: the arms of `start` (411–445), read on the pipeline
Kind: L -/
theorem step (hi : Invariant p h sent) (hs : p.Step v au e p' outs) (ha : Admissible sent h e) :
    Invariant p' (h ++ [e]) (sent ++ outs) := by
  have hfresh := ha.fresh
  have hw' := hs.wellFormed hi.wellFormed fun b hb hmem => hfresh b hb (hi.ids_pushed b hmem)
  have hids' : ∀ b ∈ p'.ids, b ∈ pushedIds (h ++ [e]) := fun b hb => by
    rcases hs.ids_subset b hb with hb | hb
    · simp [hi.ids_pushed b hb]
    · simp [hb]
  have hexec : ∀ b ∈ executionRequestIds outs, b ∈ p'.orderedIds.head? :=
    hs.executionRequestIds_outs
  have hsign : ∀ b ∈ signingRequestIds outs, b ∈ p'.executedIds.head? :=
    hs.signingRequestIds_outs hw'
  refine ⟨hw', hids', ?_, ?_, ?_, ?_, ?_, ?_, ?_, ?_, ?_⟩
  · simp only [executionRequestIds_append, List.mem_append]
    rintro b (hb | hb)
    · simp [hi.executionRequested_pushed b hb]
    · exact hids' b (Pipeline.orderedIds_subset_ids (List.mem_of_mem_head? (hexec b hb)))
  · simp only [signingRequestIds_append, List.mem_append]
    rintro b (hb | hb)
    · simp [hi.signingRequested_pushed b hb]
    · exact hids' b (Pipeline.executedIds_subset_ids (List.mem_of_mem_head? (hsign b hb)))
  · simp only [executionRequestIds_append, List.mem_append]
    rintro b (hb | hb) hmem
    · rcases hs.orderedIds_tail_subset b hmem with h1 | h1
      · exact hi.executionRequested_not_tail b hb h1
      · exact hfresh b h1 (hi.executionRequested_pushed b hb)
    · exact not_mem_tail_of_mem_head? hw'.orderedIds_nodup (hexec b hb) hmem
  · simp only [signingRequestIds_append, List.mem_append]
    rintro b (hb | hb) hmem
    · rcases hs.executedIds_tail_subset b hmem with h1 | h1
      · exact hi.signingRequested_not_tail b hb h1
      · exact hi.signingRequested_not_ordered b hb h1
    · exact not_mem_tail_of_mem_head? hw'.executedIds_nodup (hsign b hb) hmem
  · simp only [signingRequestIds_append, List.mem_append]
    rintro b (hb | hb) hmem
    · rcases hs.orderedIds_subset b hmem with h1 | h1
      · exact hi.signingRequested_not_ordered b hb h1
      · exact hfresh b h1 (hi.signingRequested_pushed b hb)
    · exact hw'.not_mem_orderedIds (List.mem_of_mem_head? (hsign b hb)) hmem
  · simp only [executionResponseIds_append, List.mem_append, executionRequestIds_append]
    rintro b (hb | hb)
    · exact .inl (hi.executionResponded_requested b hb)
    · exact .inl (ha.executionResponse_requested b hb)
  · simp only [executionResponseIds_append, List.mem_append]
    rintro b (hb | hb) hmem
    · rcases hs.orderedIds_subset b hmem with h1 | h1
      · exact hi.executionResponded_not_ordered b hb h1
      · exact hfresh b h1
          (hi.executionRequested_pushed b (hi.executionResponded_requested b hb))
    · exact hs.executionResponse_not_ordered hi.wellFormed.orderedIds_nodup b hb
        (hi.executionRequested_not_tail b (ha.executionResponse_requested b hb)) hmem
  · intro b hb
    rw [executionRequestIds_append, List.mem_append]
    rcases hs.executionRoot_or_requested with h1 | h1
    · refine .inl (hi.executionRoot_requested b ?_)
      simpa [Pipeline.orderedIds, List.head?_map, h1] using hb
    · refine .inr (executionRequestIds_mono h1 b ?_)
      simpa [Pipeline.executionRequestIds_executionRequests] using hb
  · obtain ⟨pops, h1, h2, h3⟩ := hi.conservation
    simp only [List.map_append, List.map_map, Function.comp_def] at h1
    rcases hs.popped hi.wellFormed with ⟨hp1, hp2⟩ | ⟨q, hq1, hq2, hq3, hq4⟩
    · refine ⟨pops, ?_, by simp [h2, hp1], h3⟩
      simp only [List.map_append, List.map_map, Function.comp_def, pushedItems_append, ← h1,
        ← hp2, List.append_assoc]
    · refine ⟨pops ++ [q], ?_, by simp [h2, hq1], ?_⟩
      · simp only [List.map_append, List.map_map, Function.comp_def, pushedItems_append, ← h1, hq2,
          hq3, List.flatMap_append, List.flatMap_singleton, List.append_assoc, List.append_nil]
      · intro q' hq'
        rcases List.mem_append.mp hq' with hq' | hq'
        · exact h3 q' hq'
        · rw [List.mem_singleton.mp hq']
          exact hq4

end Invariant

end BufferManager
