import BufferManager.AdvanceHead

/-!
# The pipeline the buffer is meant to be

The abstract model. Read from the head, a buffer in good order is a run of Signed items, then a
run of Executed items, then a run of Ordered items; the execution root is the first Ordered item
and the signing root the first Executed one (spec §3 invariants, §8 property 5). A `Pipeline`
holds the three runs as three lists, so a value of it *is* a buffer in that order, and its roots
are the heads of two of the lists.

* `Pipeline.items` — the buffer it stands for; `Refines s p` — the state `s` has exactly that
  buffer (every slot full) and those roots.
* `Pipeline.executionRequests`, `Pipeline.signingRequests` — what advancing the two roots sends:
  a request for the head of the Ordered run, and one for the head of the Executed run.
* **`advanceExecutionRoot_eq`, `advanceSigningRoot_eq`** — advancing a root from any cursor that
  no earlier candidate precedes moves it to the head of its run and sends that request.
* The operations the handlers perform on it: `push`, `execute`, `sign`, `dropItems`, with their
  `items` equations.
-/

namespace BufferManager

/-- The buffer as three runs: Signed items, then Executed, then Ordered, each with its node.
Source: spec §3 ("Ordered < Executed < Signed < Aggregated"), §8 property 5
Kind: D -/
structure Pipeline where
  /-- The Signed run, at the head. -/
  signed : List (Nat × SignedItem)
  /-- The Executed run. -/
  executed : List (Nat × ExecutedItem)
  /-- The Ordered run, at the tail. -/
  ordered : List (Nat × OrderedItem)

namespace Pipeline

/-- The buffer the pipeline stands for, head first. Source: none: abstraction. Kind: D -/
def items (p : Pipeline) : List (Nat × BufferItem) :=
  p.signed.map (Prod.map id .signed) ++ p.executed.map (Prod.map id .executed) ++
    p.ordered.map (Prod.map id .ordered)

/-- The first Ordered node. Source: spec §8 property 5. Kind: D -/
def executionRoot (p : Pipeline) : Link := p.ordered.head?.map Prod.fst

/-- The first Executed node. Source: spec §8 property 5. Kind: D -/
def signingRoot (p : Pipeline) : Link := p.executed.head?.map Prod.fst

/-- The execution request for the first Ordered item, if there is one.
Source: `advance_execution_root` (157–163)
Kind: D -/
def executionRequests (p : Pipeline) : List Output :=
  p.ordered.head?.toList.map fun x => .executionRequest ⟨x.2.orderedBlocks⟩

/-- The signing request for the first Executed item, if there is one.
Source: `advance_signing_root` (171–189)
Kind: D -/
def signingRequests (p : Pipeline) : List Output :=
  p.executed.head?.toList.filterMap fun x =>
    x.2.commitLedgerInfo.toOption.map fun li => .signingRequest ⟨x.2.orderedProof, li⟩

/-- A new Ordered item at the tail. Source: `process_ordered_blocks`. Kind: D -/
def push (p : Pipeline) (n : Nat) (o : OrderedItem) : Pipeline :=
  { p with ordered := p.ordered ++ [(n, o)] }

/-- The first Ordered item becomes the last Executed one, when the executed blocks are its own
(their last id is its block id); otherwise nothing changes.
Source: `process_execution_response`
Kind: D -/
def execute (p : Pipeline) (executedBlocks : List ExecutedBlock) : Pipeline :=
  match p.ordered with
  | [] => p
  | (n, o) :: rest =>
    if executedBlocks.getLast?.map (·.id) = some o.blockId then
      { p with executed := p.executed ++ [(n, o.advanceToExecuted executedBlocks)], ordered := rest }
    else p

/-- The first Executed item becomes the last Signed one.
Source: `process_signing_response`
Kind: D -/
def sign (p : Pipeline) (si : SignedItem) : Pipeline :=
  match p.executed with
  | [] => p
  | (n, _) :: rest => { p with signed := p.signed ++ [(n, si)], executed := rest }

/-- The first `k` items leave the buffer. Source: `advance_head`. Kind: D -/
def dropItems (p : Pipeline) (k : Nat) : Pipeline :=
  ⟨p.signed.drop k, p.executed.drop (k - p.signed.length),
    p.ordered.drop (k - p.signed.length - p.executed.length)⟩

/-! ## The buffer of each operation -/

/-- `execute` either changes nothing, the executed blocks not ending with the first Ordered
item's block, or moves that item to the end of the Executed run.
Source: none: infrastructure
Kind: L -/
theorem execute_cases (p : Pipeline) (blocks : List ExecutedBlock) :
    ((∀ n o rest, p.ordered = (n, o) :: rest → blocks.getLast?.map (·.id) ≠ some o.blockId) ∧
      p.execute blocks = p) ∨
    ∃ n o rest, p.ordered = (n, o) :: rest ∧ blocks.getLast?.map (·.id) = some o.blockId ∧
      p.execute blocks = { p with executed := p.executed ++ [(n, o.advanceToExecuted blocks)],
                                  ordered := rest } := by
  unfold execute
  split
  · rename_i hp
    exact .inl ⟨fun n o rest h => by simp [hp] at h, rfl⟩
  · rename_i n o rest hp
    split_ifs with h
    · exact .inr ⟨n, o, rest, hp, h, rfl⟩
    · exact .inl ⟨fun n' o' rest' h' => by simp_all, rfl⟩

/-- Source: none: infrastructure. Kind: L -/
theorem sign_of_cons {p : Pipeline} {c : Nat} {e : ExecutedItem} {rest : List (Nat × ExecutedItem)}
    (hp : p.executed = (c, e) :: rest) (si : SignedItem) :
    p.sign si = { p with signed := p.signed ++ [(c, si)], executed := rest } := by
  simp [sign, hp]

/-- Source: none: infrastructure. Kind: L -/
@[simp] theorem push_signed (p : Pipeline) (n : Nat) (o : OrderedItem) :
    (p.push n o).signed = p.signed := rfl

/-- Source: none: infrastructure. Kind: L -/
@[simp] theorem push_executed (p : Pipeline) (n : Nat) (o : OrderedItem) :
    (p.push n o).executed = p.executed := rfl

/-- Source: none: infrastructure. Kind: L -/
@[simp] theorem push_ordered (p : Pipeline) (n : Nat) (o : OrderedItem) :
    (p.push n o).ordered = p.ordered ++ [(n, o)] := rfl

/-- Source: none: infrastructure. Kind: L -/
@[simp] theorem dropItems_executed (p : Pipeline) (k : Nat) :
    (p.dropItems k).executed = p.executed.drop (k - p.signed.length) := rfl

/-- Source: none: infrastructure. Kind: L -/
@[simp] theorem dropItems_ordered (p : Pipeline) (k : Nat) :
    (p.dropItems k).ordered = p.ordered.drop (k - p.signed.length - p.executed.length) := rfl

/-- Source: none: infrastructure. Kind: L -/
theorem items_push (p : Pipeline) (n : Nat) (o : OrderedItem) :
    (p.push n o).items = p.items ++ [(n, .ordered o)] := by
  simp [items, push]

/-- Source: none: infrastructure. Kind: L -/
theorem items_dropItems (p : Pipeline) (k : Nat) : (p.dropItems k).items = p.items.drop k := by
  simp [items, dropItems, List.drop_append_eq_append_drop, Nat.sub_sub]

/-- The buffer around the head of the Ordered run. Source: none: infrastructure. Kind: L -/
theorem items_of_ordered_cons {p : Pipeline} {c : Nat} {o : OrderedItem}
    {rest : List (Nat × OrderedItem)} (hp : p.ordered = (c, o) :: rest) :
    p.items = (p.signed.map (Prod.map id .signed) ++ p.executed.map (Prod.map id .executed)) ++
      (c, .ordered o) :: rest.map (Prod.map id .ordered) := by
  simp [items, hp]

/-- The buffer around the head of the Executed run. Source: none: infrastructure. Kind: L -/
theorem items_of_executed_cons {p : Pipeline} {c : Nat} {e : ExecutedItem}
    {rest : List (Nat × ExecutedItem)} (hp : p.executed = (c, e) :: rest) :
    p.items = p.signed.map (Prod.map id .signed) ++
      (c, .executed e) :: (rest.map (Prod.map id .executed) ++ p.ordered.map (Prod.map id .ordered)) := by
  simp [items, hp]

/-- A Signed item of the buffer belongs to the Signed run. Source: none: infrastructure. Kind: L -/
theorem mem_signed_of_mem_items {p : Pipeline} {c : Nat} {si : SignedItem}
    (h : (c, .signed si) ∈ p.items) : (c, si) ∈ p.signed := by
  simpa [items] using h

/-- Source: none: infrastructure. Kind: L -/
theorem mem_items_of_mem_signed {p : Pipeline} {c : Nat} {si : SignedItem}
    (h : (c, si) ∈ p.signed) : (c, .signed si) ∈ p.items :=
  List.mem_append_left _ (List.mem_append_left _ (List.mem_map_of_mem (Prod.map id BufferItem.signed) h))

/-- No item of a pipeline is Aggregated. Source: none: infrastructure. Kind: L -/
theorem not_mem_items_aggregated {p : Pipeline} {c : Nat} {a : AggregatedItem} :
    (c, .aggregated a) ∉ p.items := by
  simp [items]

/-- Source: none: infrastructure. Kind: L -/
theorem isAggregated_of_mem_items {p : Pipeline} {c : Nat} {x : BufferItem} (h : (c, x) ∈ p.items) :
    x.isAggregated = false := by
  cases x with
  | aggregated a => exact absurd h not_mem_items_aggregated
  | _ => rfl

/-- Source: none: infrastructure. Kind: L -/
theorem find?_const_true {α : Type} (l : List α) : l.find? (fun _ => true) = l.head? := by
  cases l <;> rfl

/-- Source: none: infrastructure. Kind: L -/
theorem find?_const_false {α : Type} (l : List α) : l.find? (fun _ => false) = none :=
  List.find?_eq_none.mpr (by simp)

/-- The first Ordered item of the buffer heads the Ordered run.
Source: none: infrastructure
Kind: L -/
theorem find?_isOrdered_items (p : Pipeline) :
    p.items.find? (fun x => x.2.isOrdered) = p.ordered.head?.map (Prod.map id .ordered) := by
  simp [items, List.find?_append, Function.comp_def, BufferItem.isOrdered, find?_const_true,
    find?_const_false, List.head?_map]

/-- The first Executed item of the buffer heads the Executed run.
Source: none: infrastructure
Kind: L -/
theorem find?_isExecuted_items (p : Pipeline) :
    p.items.find? (fun x => x.2.isExecuted) = p.executed.head?.map (Prod.map id .executed) := by
  simp [items, List.find?_append, Function.comp_def, BufferItem.isExecuted, find?_const_true,
    find?_const_false, List.head?_map]

/-- The item-level invariant of a pipeline: distinct block ids, executed blocks that end with
the item's own block, and commit votes on the item's own block.
Source: spec §3 ("Each item's block_id is unique within the buffer"), §8 properties 1 and 4
Kind: D -/
structure WellFormed (p : Pipeline) : Prop where
  /-- Block ids are pairwise distinct. -/
  ids_nodup : (p.items.map (·.2.blockId)).Nodup
  /-- An Executed item's last executed block is its own last block. -/
  executed_last : ∀ x ∈ p.executed, x.2.executedBlocks.getLast?.map (·.id) = some x.2.blockId
  /-- A Signed item's commit vote commits its own block. -/
  signed_commit : ∀ x ∈ p.signed, x.2.commitVote.ledgerInfo.commitInfo.id = x.2.blockId

/-- The root of an Ordered run is preceded only by items that are not Ordered.
Source: none: infrastructure
Kind: L -/
theorem split_executionRoot (p : Pipeline) : ∀ c, p.executionRoot = some c →
    ∃ A x B, p.items = A ++ (c, x) :: B ∧ ∀ a ∈ A, a.2.isOrdered = false := by
  intro c hc
  rcases hp : p.ordered with _ | ⟨⟨c', o⟩, rest⟩
  · simp [Pipeline.executionRoot, hp] at hc
  · simp only [Pipeline.executionRoot, hp, List.head?_cons, Option.map_some', Option.some.injEq] at hc
    subst hc
    refine ⟨p.signed.map (Prod.map id .signed) ++ p.executed.map (Prod.map id .executed),
      .ordered o, rest.map (Prod.map id .ordered), by simp [Pipeline.items, hp], ?_⟩
    intro a ha
    simp only [List.mem_append, List.mem_map] at ha
    rcases ha with ⟨y, -, rfl⟩ | ⟨y, -, rfl⟩ <;> rfl

/-- After `execute`, the old execution root is preceded only by items that are not Ordered.
Source: none: infrastructure
Kind: L -/
theorem split_execute (p : Pipeline) (blocks : List ExecutedBlock) :
    ∀ c, p.executionRoot = some c →
      ∃ A x B, (p.execute blocks).items = A ++ (c, x) :: B ∧ ∀ a ∈ A, a.2.isOrdered = false := by
  intro c hc
  rcases hp : p.ordered with _ | ⟨⟨c', o⟩, rest⟩
  · simp [Pipeline.executionRoot, hp] at hc
  · have hc' : c' = c := by simpa [Pipeline.executionRoot, hp] using hc
    by_cases ho : blocks.getLast?.map (·.id) = some o.blockId
    · refine ⟨p.signed.map (Prod.map id .signed) ++ p.executed.map (Prod.map id .executed),
        .executed (o.advanceToExecuted blocks), rest.map (Prod.map id .ordered), ?_, ?_⟩
      · simp [Pipeline.execute, Pipeline.items, hp, ho, hc']
      · intro a ha
        simp only [List.mem_append, List.mem_map] at ha
        rcases ha with ⟨y, -, rfl⟩ | ⟨y, -, rfl⟩ <;> rfl
    · simpa [Pipeline.execute, hp, ho] using split_executionRoot p c hc

/-- The root of an Executed run is preceded only by Signed items.
Source: none: infrastructure
Kind: L -/
theorem split_signingRoot (p : Pipeline) : ∀ c, p.signingRoot = some c →
    ∃ A x B, p.items = A ++ (c, x) :: B ∧ ∀ a ∈ A, a.2.isExecuted = false := by
  intro c hc
  rcases hp : p.executed with _ | ⟨⟨c', e⟩, rest⟩
  · simp [Pipeline.signingRoot, hp] at hc
  · have hc' : c' = c := by simpa [Pipeline.signingRoot, hp] using hc
    refine ⟨p.signed.map (Prod.map id .signed), .executed e, _,
      by rw [Pipeline.items_of_executed_cons hp, hc'], ?_⟩
    intro a ha
    obtain ⟨y, -, rfl⟩ := List.mem_map.mp ha
    rfl

/-- After `sign`, the old signing root is preceded only by Signed items.
Source: none: infrastructure
Kind: L -/
theorem split_sign {p : Pipeline} {c : Nat} {e : ExecutedItem} {rest : List (Nat × ExecutedItem)}
    (hp : p.executed = (c, e) :: rest) (si : SignedItem) :
    ∃ A x B, (p.sign si).items = A ++ (c, x) :: B ∧ ∀ a ∈ A, a.2.isExecuted = false := by
  refine ⟨p.signed.map (Prod.map id .signed), .signed si,
    rest.map (Prod.map id .executed) ++ p.ordered.map (Prod.map id .ordered),
    by simp [sign, items, hp], ?_⟩
  intro a ha
  obtain ⟨y, -, rfl⟩ := List.mem_map.mp ha
  rfl

/-- Every Executed item, the first in particular, has a last executed block.
Source: none: infrastructure
Kind: L -/
theorem WellFormed.executed_ne_nil {p : Pipeline} (hw : p.WellFormed) :
    ∀ x ∈ p.executed.head?, x.2.executedBlocks ≠ [] := by
  intro x hx h
  have := hw.executed_last x (List.mem_of_mem_head? hx)
  simp [h] at this

/-- Dropping a prefix keeps a pipeline well formed. Source: none: infrastructure. Kind: L -/
theorem WellFormed.dropItems {p : Pipeline} (hw : p.WellFormed) (k : Nat) :
    (p.dropItems k).WellFormed where
  ids_nodup := by
    rw [items_dropItems]
    exact hw.ids_nodup.sublist ((List.drop_sublist _ _).map _)
  executed_last x hx := hw.executed_last x (List.mem_of_mem_drop hx)
  signed_commit x hx := hw.signed_commit x (List.mem_of_mem_drop hx)

/-! ## What one turn of the loop does -/

/-- The abstract handler: what one event does to the pipeline, and what it sends. `author` is the
validator, whose signature a signing response carries.
Source: the arms of `start` (411–445), read on the three runs
Kind: D -/
inductive Step (v : ValidatorVerifier) (author : Author) :
    Pipeline → Event → Pipeline → List Output → Prop
  /-- Ordered blocks join the Ordered run; when they head it, their execution is requested. -/
  | push (p : Pipeline) (n : Nat) (b : OrderedBlocks) :
      Step v author p (.orderedBlocks b) (p.push n b.toItem)
        (if p.ordered = [] then (p.push n b.toItem).executionRequests else [])
  /-- An execution response executes the first Ordered item if it is its own; the next Ordered
  item's execution is requested, and the new Executed item's signature if it heads its run. -/
  | execute (p : Pipeline) {r : ExecutionResponse} {blocks : List ExecutedBlock}
      (hok : r.inner = .ok blocks) :
      Step v author p (.executionResponse r) (p.execute blocks)
        ((p.execute blocks).executionRequests ++
          if p.executed = [] then (p.execute blocks).signingRequests else [])
  /-- A signing response that signs nothing, being a failure or not for the first Executed item;
  that item's signature is requested again. -/
  | signNothing (p : Pipeline) {r : SigningResponse}
      (hno : ∀ c e rest signature, p.executed = (c, e) :: rest →
        r.signatureResult = .ok signature → e.blockId ≠ r.commitLedgerInfo.commitInfo.id) :
      Step v author p (.signingResponse r) p p.signingRequests
  /-- A successful signing response for the first Executed item signs it and broadcasts the
  vote; the next Executed item's signature is requested. -/
  | sign (p : Pipeline) {r : SigningResponse} {c : Nat} {e : ExecutedItem}
      {rest : List (Nat × ExecutedItem)} {signature : Signature} {si : SignedItem}
      {vote : CommitVote} (hp : p.executed = (c, e) :: rest)
      (he : e.blockId = r.commitLedgerInfo.commitInfo.id) (hsig : r.signatureResult = .ok signature)
      (hadv : e.advanceToSigned author signature = .ok (si, vote)) :
      Step v author p (.signingResponse r) (p.sign si)
        ([.commitVote vote] ++ (p.sign si).signingRequests)
  /-- A commit vote for no Signed item leaves every item as it was. -/
  | voteNothing (p : Pipeline) {vote : CommitVote}
      (hno : ∀ x ∈ p.signed, x.2.blockId ≠ vote.commitInfo.id) :
      Step v author p (.commitMessage (.commitVote vote)) p []
  /-- A commit vote that a Signed item takes in and stays Signed. -/
  | vote (p : Pipeline) (vote : CommitVote) {A B : List (Nat × SignedItem)} {c : Nat}
      {si si' : SignedItem} (hAB : p.signed = A ++ (c, si) :: B)
      (hsi : (BufferItem.signed si).withCommitVote v vote = .signed si') :
      Step v author p (.commitMessage (.commitVote vote)) { p with signed := A ++ (c, si') :: B } []
  /-- A commit vote that aggregates a Signed item: the Signed run through it is persisted. -/
  | voteAggregate (p : Pipeline) (vote : CommitVote) {A B : List (Nat × SignedItem)} {c : Nat}
      {si : SignedItem} {a : AggregatedItem} (hAB : p.signed = A ++ (c, si) :: B)
      (ha : (BufferItem.signed si).withCommitVote v vote = .aggregated a) :
      Step v author p (.commitMessage (.commitVote vote)) { p with signed := B }
        [.persistingRequest ⟨(A.map (fun x : Nat × SignedItem => BufferItem.signed x.2) ++
          [BufferItem.aggregated a]).flatMap BufferItem.getBlocks, a.aggregatedProof, a.callback⟩]
  /-- A sync request whose ledger info aggregates no item: acknowledged, and both requests
  sent again. -/
  | syncNothing (p : Pipeline) {r : SyncRequest} (hrc : r.reconfig = false)
      (hno : ∀ x ∈ p.items, x.2.blockId = r.ledgerInfo.commitInfo.id →
        (x.2.tryAdvanceToAggregatedWithLedgerInfo v r.ledgerInfo).isAggregated = false) :
      Step v author p (.syncRequest r) p ([.syncAck] ++ p.executionRequests ++ p.signingRequests)
  /-- A sync request whose ledger info aggregates an item: the buffer through it is persisted
  under the ledger info, acknowledged, and both requests of what is left are sent. -/
  | syncAggregate (p : Pipeline) {r : SyncRequest} (hrc : r.reconfig = false)
      {A B : List (Nat × BufferItem)} {c : Nat} {x : BufferItem} (hitems : p.items = A ++ (c, x) :: B)
      (hid : x.blockId = r.ledgerInfo.commitInfo.id) (hver : v.verifySignatures r.ledgerInfo = true) :
      Step v author p (.syncRequest r) (p.dropItems (A.length + 1))
        ([.persistingRequest ⟨(A.map Prod.snd ++
            [BufferItem.aggregated { x.origin with aggregatedProof := r.ledgerInfo }]).flatMap
              BufferItem.getBlocks, r.ledgerInfo, x.origin.callback⟩, .syncAck] ++
          (p.dropItems (A.length + 1)).executionRequests ++
          (p.dropItems (A.length + 1)).signingRequests)
  /-- A reconfiguration: acknowledged, and the epoch ends. -/
  | syncReconfig (p : Pipeline) {r : SyncRequest} (hrc : r.reconfig = true) :
      Step v author p (.syncRequest r) p [.syncAck]
  /-- A tick, with an Executed item or no Ordered one, re-broadcasts the Signed run's votes. -/
  | tick (p : Pipeline) (h : ¬ (p.executed = [] ∧ p.ordered ≠ [])) :
      Step v author p .tick p (p.signed.map fun x => .commitVote x.2.commitVote)

/-- What the loop needs of a pipeline to handle an event without faulting on a stale lookup: an
execution response is for no Ordered item but the first, and a signing response for no Executed
item but the first and for no Ordered item.
Source: `process_execution_response`, `process_signing_response` (search from the roots)
Kind: D -/
def Ready (p : Pipeline) : Event → Prop
  | .executionResponse r => ∀ blocks, r.inner = .ok blocks →
      ∃ b, blocks.getLast?.map (·.id) = some b ∧ ∀ x ∈ p.ordered.tail, x.2.blockId ≠ b
  | .signingResponse r => (∀ x ∈ p.executed.tail, x.2.blockId ≠ r.commitLedgerInfo.commitInfo.id) ∧
      ∀ x ∈ p.ordered, x.2.blockId ≠ r.commitLedgerInfo.commitInfo.id
  | _ => True

end Pipeline

/-- The state has exactly the pipeline's buffer, every slot full, and its two roots.
Source: spec §3 invariants; §8 property 5
Kind: D -/
structure Refines (s : StateManager) (p : Pipeline) : Prop where
  /-- The buffer's slots. -/
  slots : s.buffer.slots = p.items.map Slot.full
  /-- `execution_root` is the first Ordered node. -/
  executionRoot : s.executionRoot = p.executionRoot
  /-- `signing_root` is the first Executed node. -/
  signingRoot : s.signingRoot = p.signingRoot

/-- Taking out the item of node `c` from a refined buffer and putting `y` in its place replaces
that item by `y`. Source: `take_elem`, `set_elem`, as `process_commit_message` and
`process_sync_request` use them. Kind: L -/
theorem Refines.takeElem_setElem {s : StateManager} {p : Pipeline} (hr : Refines s p)
    {as bs : List (Nat × BufferItem)} {c : Nat} {x : BufferItem}
    (hitems : p.items = as ++ (c, x) :: bs) :
    ∃ buf, s.buffer.takeElem c = .ok (x, buf) ∧ buf.slots = s.buffer.slots.map (Slot.setAt c none) ∧
      ∀ y, (buf.setElem c y).slots = (as ++ (c, y) :: bs).map Slot.full := by
  have hslots : s.buffer.slots = (as ++ (c, x) :: bs).map Slot.full := by rw [hr.slots, hitems]
  obtain ⟨buf, htake, hbuf, -⟩ := LinkedList.takeElem_of_mem (l := s.buffer) (n := c) (x := x)
    (by simp [hslots, Slot.full])
  refine ⟨buf, htake, hbuf, fun y => ?_⟩
  rw [LinkedList.setElem_slots, hbuf, List.map_map, LinkedList.setAt_comp_setAt, hslots,
    LinkedList.map_setAt_full_of_nodup (LinkedList.nodup_fst_of_slots hslots)]

namespace StateManager

/-- **Advancing the execution root** from a cursor that no Ordered item precedes (or from the
head) moves it to the first Ordered item and requests its execution.
Source: `advance_execution_root` (154–164)
Kind: L -/
theorem advanceExecutionRoot_eq {s : StateManager} {p : Pipeline}
    (hs : s.buffer.slots = p.items.map Slot.full)
    (hc : ∀ c, s.executionRoot = some c →
      ∃ A x B, p.items = A ++ (c, x) :: B ∧ ∀ a ∈ A, a.2.isOrdered = false) :
    s.advanceExecutionRoot =
      .ok { s with executionRoot := p.executionRoot, sent := s.sent ++ p.executionRequests } := by
  unfold advanceExecutionRoot
  dsimp only
  rw [LinkedList.findElem_or_head_of_slots hs hc, Pipeline.find?_isOrdered_items]
  rcases hp : p.ordered with _ | ⟨⟨c, o⟩, rest⟩
  · simp [Pipeline.executionRoot, Pipeline.executionRequests, hp]
  · have hget : s.buffer.getElem (some c) = .ok (.ordered o) :=
      LinkedList.getElem_of_mem (by simp [hs, Pipeline.items, hp, Slot.full])
    simp [Pipeline.executionRoot, Pipeline.executionRequests, hp, hget, send]

/-- **Advancing the signing root** from a cursor that no Executed item precedes (or from the head)
moves it to the first Executed item and requests its signature.
Source: `advance_signing_root` (168–193)
Kind: L -/
theorem advanceSigningRoot_eq {s : StateManager} {p : Pipeline}
    (hs : s.buffer.slots = p.items.map Slot.full)
    (hne : ∀ x ∈ p.executed.head?, x.2.executedBlocks ≠ [])
    (hc : ∀ c, s.signingRoot = some c →
      ∃ A x B, p.items = A ++ (c, x) :: B ∧ ∀ a ∈ A, a.2.isExecuted = false) :
    s.advanceSigningRoot =
      .ok { s with signingRoot := p.signingRoot, sent := s.sent ++ p.signingRequests } := by
  unfold advanceSigningRoot
  dsimp only
  rw [LinkedList.findElem_or_head_of_slots hs hc, Pipeline.find?_isExecuted_items]
  rcases hp : p.executed with _ | ⟨⟨c, e⟩, rest⟩
  · simp [Pipeline.signingRoot, Pipeline.signingRequests, hp]
  · have hget : s.buffer.getElem (some c) = .ok (.executed e) :=
      LinkedList.getElem_of_mem (by simp [hs, Pipeline.items, hp, Slot.full])
    obtain ⟨b, hb⟩ := List.getLast?_isSome.mpr (hne (c, e) (by simp [hp]))
      |> Option.isSome_iff_exists.mp
    have hli : e.commitLedgerInfo = .ok ⟨b.blockInfo, e.orderedProof.ledgerInfo.consensusDataHash⟩ := by
      simp [ExecutedItem.commitLedgerInfo, hb]
    simp [Pipeline.signingRoot, Pipeline.signingRequests, hp, hget, hli, send, Except.toOption]

end StateManager

end BufferManager
