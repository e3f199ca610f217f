import BufferManager.Types

/-!
# Buffer items and their transitions (spec §3, §4.1)

`buffer_item.rs` is not part of this slice; `buffer_manager.rs` only calls it. Everything here is
modelled from the spec's data model (§3) and its list of item operations (§4.1), and keeps of
each state what a modelled function reads.

* `BufferItem` — the four-state lifecycle `Ordered → Executed → Signed → Aggregated`. Every state
  keeps the `OrderedItem` it was created from (`BufferItem.origin`), hence its block list
  (`getBlocks`, read as the original block list: see there) and its `blockId`, the id of the last
  block. The block list is non-empty by construction (`OrderedItem.orderedBlocks_ne_nil`):
  `block_id()` unwraps `last()`.
* The transitions `OrderedItem.advanceToExecuted`, `ExecutedItem.advanceToSigned`,
  `BufferItem.addSignatureIfMatched`, `BufferItem.tryAdvanceToAggregated` and
  `BufferItem.tryAdvanceToAggregatedWithLedgerInfo`, each a pure function returning the new item.
* **Every transition keeps the origin** (`origin_advanceToExecuted`, …,
  `origin_tryAdvanceToAggregatedWithLedgerInfo`), so an item's blocks, block id and callback never
  change while it moves through the pipeline.
-/

namespace BufferManager

/-! ## The four states -/

/-- Modelled from the spec (§3, Ordered row; `buffer_item.rs` is missing): an item as created from
ordered blocks. The list is non-empty, since `block_id()` is the id of its last block.
Source: spec §3; `BufferItem::new_ordered` call in `process_ordered_blocks`
Kind: D -/
structure OrderedItem where
  /-- The ordered blocks; `get_blocks()` of every state. -/
  orderedBlocks : List ExecutedBlock
  /-- `block_id()` unwraps `last()`: the list is never empty. -/
  orderedBlocks_ne_nil : orderedBlocks ≠ []
  /-- The quorum certificate on the ordering. -/
  orderedProof : LedgerInfoWithSignatures
  /-- The commit callback. -/
  callback : Callback
deriving DecidableEq, Repr

/-- Modelled from the spec (§3, Executed row): an ordered item with its executed blocks.
Source: spec §3
Kind: D -/
structure ExecutedItem extends OrderedItem where
  /-- The blocks as the execution phase returned them. -/
  executedBlocks : List ExecutedBlock
deriving DecidableEq, Repr

/-- Modelled from the spec (§3, Signed row): an executed item with the local commit vote and the
signatures collected so far, one per author.
Source: spec §3, §4.1 `advance_to_signed`
Kind: D -/
structure SignedItem extends ExecutedItem where
  /-- The local commit vote; its ledger info is the commit ledger info. -/
  commitVote : CommitVote
  /-- The signature map, keyed by author. -/
  signatures : List (Author × Signature)
deriving DecidableEq, Repr

/-- Modelled from the spec (§3, Aggregated row): an item with its aggregated commit proof. The
manager reads of it only its blocks, the proof and the callback (`advance_head`); with
`get_blocks()` read as the original block list (`BufferItem.getBlocks`), the executed blocks and
signatures of the item it came from are not kept.
Source: spec §3, §4.1
Kind: D -/
structure AggregatedItem extends OrderedItem where
  /-- The threshold-signed commit ledger info. -/
  aggregatedProof : LedgerInfoWithSignatures
deriving DecidableEq, Repr

/-- Modelled from the spec (§3, "Tagged variant over four states"): a buffer item.
Source: `BufferItem` (`crate::experimental::buffer_item`); spec §3
Kind: D -/
inductive BufferItem
  | ordered (item : OrderedItem)
  | executed (item : ExecutedItem)
  | signed (item : SignedItem)
  | aggregated (item : AggregatedItem)
deriving DecidableEq, Repr

/-- The id of the last ordered block: the block id of every item created from `o`.
Source: spec §3 ("block_id (the id of the last block in the item's block list)")
Kind: D -/
def OrderedItem.blockId (o : OrderedItem) : HashValue :=
  (o.orderedBlocks.getLast o.orderedBlocks_ne_nil).id

namespace BufferItem

/-- The ordered item this item was created from; every state keeps it.
Source: spec §3 ("Every state exposes a block_id ... and the original block list")
Kind: D -/
def origin : BufferItem → OrderedItem
  | ordered o => o
  | executed e => e.toOrderedItem
  | signed s => s.toOrderedItem
  | aggregated a => a.toOrderedItem

/-- `get_blocks()`: the original block list, in every state. `buffer_item.rs` is not in this slice
and the spec reads two ways: §3 says that every state exposes "the original block list", while its
table gives the Executed state an executed block list and its §8 scenarios persist `[E1]`. The
model takes the first reading, so a persisting request carries the ordered blocks; the executed
blocks are read only for the commit ledger info (`ExecutedItem.commitLedgerInfo`).
Source: spec §3
Kind: D -/
def getBlocks (item : BufferItem) : List ExecutedBlock := item.origin.orderedBlocks

/-- `block_id()`: the id of the last block of the item's block list. Source: spec §3. Kind: D -/
def blockId (item : BufferItem) : HashValue := item.origin.blockId

/-- `is_ordered()`. Source: spec §4.1. Kind: D -/
def isOrdered : BufferItem → Bool
  | ordered _ => true
  | _ => false

/-- `is_executed()`. Source: spec §4.1. Kind: D -/
def isExecuted : BufferItem → Bool
  | executed _ => true
  | _ => false

/-- `is_aggregated()`. Source: spec §4.1. Kind: D -/
def isAggregated : BufferItem → Bool
  | aggregated _ => true
  | _ => false

/-- Equation lemma. Source: none: infrastructure. Kind: L -/
theorem getBlocks_eq (item : BufferItem) : item.getBlocks = item.origin.orderedBlocks := rfl

/-- Equation lemma. Source: none: infrastructure. Kind: L -/
theorem blockId_eq (item : BufferItem) : item.blockId = item.origin.blockId := rfl

/-- Equation lemma. Source: none: infrastructure. Kind: L -/
@[simp] theorem blockId_ordered (o : OrderedItem) : (ordered o).blockId = o.blockId := rfl

/-- Equation lemma. Source: none: infrastructure. Kind: L -/
@[simp] theorem blockId_executed (e : ExecutedItem) : (executed e).blockId = e.blockId := rfl

/-- Equation lemma. Source: none: infrastructure. Kind: L -/
@[simp] theorem blockId_signed (s : SignedItem) : (signed s).blockId = s.blockId := rfl

/-- Equation lemma. Source: none: infrastructure. Kind: L -/
@[simp] theorem blockId_aggregated (a : AggregatedItem) : (aggregated a).blockId = a.blockId := rfl

/-- Equation lemma. Source: none: infrastructure. Kind: L -/
@[simp] theorem getBlocks_ordered (o : OrderedItem) : (ordered o).getBlocks = o.orderedBlocks := rfl

/-- Equation lemma. Source: none: infrastructure. Kind: L -/
@[simp] theorem getBlocks_executed (e : ExecutedItem) :
    (executed e).getBlocks = e.orderedBlocks := rfl

/-- Equation lemma. Source: none: infrastructure. Kind: L -/
@[simp] theorem getBlocks_signed (s : SignedItem) : (signed s).getBlocks = s.orderedBlocks := rfl

/-- Equation lemma. Source: none: infrastructure. Kind: L -/
@[simp] theorem getBlocks_aggregated (a : AggregatedItem) :
    (aggregated a).getBlocks = a.orderedBlocks := rfl

/-- Equation lemma. Source: none: infrastructure. Kind: L -/
@[simp] theorem origin_ordered (o : OrderedItem) : (ordered o).origin = o := rfl

/-- Equation lemma. Source: none: infrastructure. Kind: L -/
@[simp] theorem origin_executed (e : ExecutedItem) : (executed e).origin = e.toOrderedItem := rfl

/-- Equation lemma. Source: none: infrastructure. Kind: L -/
@[simp] theorem origin_signed (s : SignedItem) : (signed s).origin = s.toOrderedItem := rfl

/-- Equation lemma. Source: none: infrastructure. Kind: L -/
@[simp] theorem origin_aggregated (a : AggregatedItem) :
    (aggregated a).origin = a.toOrderedItem := rfl

end BufferItem

/-! ## Transitions -/

/-- `new_ordered(ordered_blocks, ordered_proof, callback)`.
Source: spec §4.1; call in `process_ordered_blocks`
Kind: D -/
def BufferItem.newOrdered (o : OrderedItem) : BufferItem := .ordered o

/-- Modelled from the spec (§4.1 `advance_to_executed`): attach the executed blocks, keeping the
ordered proof and the callback. The precondition (the item is Ordered) is the `assert!` of the
caller, so the transition is stated on `OrderedItem`.
Source: spec §4.1
Kind: D -/
def OrderedItem.advanceToExecuted (o : OrderedItem) (executedBlocks : List ExecutedBlock) :
    ExecutedItem :=
  { o with executedBlocks }

/-- The commit ledger info of an executed item: the last executed block's `block_info()` with the
ordered proof's consensus data hash. `executed_blocks.last().unwrap()` faults on an empty list.
Source: `advance_signing_root` (`buffer_manager.rs` 175–181); spec §4.1 `advance_to_signed`
Kind: D -/
def ExecutedItem.commitLedgerInfo (e : ExecutedItem) : Except Fault LedgerInfo :=
  match e.executedBlocks.getLast? with
  | some b => .ok ⟨b.blockInfo, e.orderedProof.ledgerInfo.consensusDataHash⟩
  | none => .error .unwrapNone

/-- Modelled from the spec (§4.1 `advance_to_signed(author, signature, verifier)`): sign the
commit ledger info as `author`, and seed the signature map with `{author ↦ signature}`. Returns
the signed item and the local commit vote. The verifier argument does not change the result.
Source: spec §4.1; call in `process_signing_response`
Kind: D -/
def ExecutedItem.advanceToSigned (e : ExecutedItem) (author : Author) (signature : Signature) :
    Except Fault (SignedItem × CommitVote) := do
  let commitLedgerInfo ← e.commitLedgerInfo
  let vote : CommitVote := ⟨author, commitLedgerInfo, signature⟩
  pure ({ e with commitVote := vote, signatures := [(author, signature)] }, vote)

/-- Why `add_signature_if_matched` refused a vote.
Source: spec §4.1 (`MismatchedLedgerInfo`, `InvalidSignature`; an item that is not Signed refuses
every vote, under a name the spec does not give)
Kind: D -/
inductive SignatureError
  | mismatchedLedgerInfo
  | invalidSignature
  | notSigned
deriving DecidableEq, Repr

/-- Insert into the signature map; a second signature of one author replaces the first.
Source: spec §4.1 ("duplicate authors silently overwrite — last-write-wins")
Kind: D -/
def insertSignature (author : Author) (signature : Signature)
    (signatures : List (Author × Signature)) : List (Author × Signature) :=
  (author, signature) :: signatures.filter (·.1 ≠ author)

/-- The signature map keeps one signature per author.
Source: spec §4.1 ("duplicate authors silently overwrite")
Kind: L -/
theorem insertSignature_nodup (author : Author) (signature : Signature)
    {signatures : List (Author × Signature)} (h : (signatures.map Prod.fst).Nodup) :
    ((insertSignature author signature signatures).map Prod.fst).Nodup := by
  simp only [insertSignature, List.map_cons, List.nodup_cons, List.mem_map, List.mem_filter]
  refine ⟨?_, h.sublist ((List.filter_sublist _).map _)⟩
  rintro ⟨x, ⟨-, hx⟩, rfl⟩
  simp at hx

/-- After an insertion the authors are the inserted one and all the earlier ones.
Source: spec §4.1 ("duplicate authors silently overwrite")
Kind: L -/
theorem mem_insertSignature_authors {author b : Author} {signature : Signature}
    {signatures : List (Author × Signature)} :
    b ∈ (insertSignature author signature signatures).map Prod.fst ↔
      b = author ∨ b ∈ signatures.map Prod.fst := by
  by_cases hb : b = author <;> simp [insertSignature, hb]

namespace BufferItem

/-- Modelled from the spec (§4.1 `add_signature_if_matched(block_info, author, signature)`): on a
Signed item whose commit ledger info has this `block_info` and a signature that verifies, insert
it into the signature map; otherwise refuse.
Source: spec §4.1; call in `process_commit_message`
Kind: D -/
def addSignatureIfMatched (v : ValidatorVerifier) (item : BufferItem) (blockInfo : BlockInfo)
    (author : Author) (signature : Signature) : Except SignatureError BufferItem :=
  match item with
  | signed s =>
    if s.commitVote.ledgerInfo.commitInfo ≠ blockInfo then .error .mismatchedLedgerInfo
    else if !v.verify author s.commitVote.ledgerInfo signature then .error .invalidSignature
    else .ok (signed { s with signatures := insertSignature author signature s.signatures })
  | _ => .error .notSigned

/-- Modelled from the spec (§4.1 `try_advance_to_aggregated(verifier)`): a Signed item whose
signatures reach the quorum becomes Aggregated, with the commit ledger info and the signature map
as its proof; every other item is returned unchanged.
Source: spec §4.1, §4.4; call in `process_commit_message`
Kind: D -/
def tryAdvanceToAggregated (v : ValidatorVerifier) (item : BufferItem) : BufferItem :=
  match item with
  | signed s =>
    if v.checkVotingPower (s.signatures.map Prod.fst) then
      aggregated { s.toOrderedItem with aggregatedProof := ⟨s.commitVote.ledgerInfo, s.signatures⟩ }
    else item
  | _ => item

/-- Modelled from the spec (§4.1 `try_advance_to_aggregated_with_ledger_info(external_li)`): any
item that is not yet Aggregated becomes Aggregated with `external_li` as its proof when
`external_li` verifies and commits this item's block; otherwise it is returned unchanged.
Source: spec §4.1; call in `process_sync_request`
Kind: D -/
def tryAdvanceToAggregatedWithLedgerInfo (v : ValidatorVerifier) (item : BufferItem)
    (li : LedgerInfoWithSignatures) : BufferItem :=
  match item with
  | aggregated _ => item
  | _ =>
    if v.verifySignatures li ∧ li.commitInfo.id = item.blockId then
      aggregated { item.origin with aggregatedProof := li }
    else item

end BufferItem

/-! ## Every transition keeps the origin -/

namespace BufferItem

/-- Source: none: infrastructure. Kind: L -/
@[simp] theorem origin_advanceToExecuted (o : OrderedItem) (bs : List ExecutedBlock) :
    (executed (o.advanceToExecuted bs)).origin = o := rfl

/-- Source: none: infrastructure. Kind: L -/
theorem origin_advanceToSigned {e : ExecutedItem} {a : Author} {sig : Signature}
    {r : SignedItem × CommitVote} (h : e.advanceToSigned a sig = .ok r) :
    (signed r.1).origin = e.toOrderedItem := by
  unfold ExecutedItem.advanceToSigned at h
  cases hc : e.commitLedgerInfo <;> simp only [hc, bind, Except.bind, pure, Except.pure,
    Except.ok.injEq, reduceCtorEq] at h
  subst h; rfl

/-- Source: none: infrastructure. Kind: L -/
theorem origin_addSignatureIfMatched {v : ValidatorVerifier} {item item' : BufferItem}
    {bi : BlockInfo} {a : Author} {sig : Signature}
    (h : item.addSignatureIfMatched v bi a sig = .ok item') : item'.origin = item.origin := by
  unfold addSignatureIfMatched at h
  split at h
  · split_ifs at h
    cases h; rfl
  · cases h

/-- Source: none: infrastructure. Kind: L -/
@[simp] theorem origin_tryAdvanceToAggregated (v : ValidatorVerifier) (item : BufferItem) :
    (item.tryAdvanceToAggregated v).origin = item.origin := by
  unfold tryAdvanceToAggregated
  split <;> (try split) <;> rfl

/-- Source: none: infrastructure. Kind: L -/
@[simp] theorem origin_tryAdvanceToAggregatedWithLedgerInfo (v : ValidatorVerifier)
    (item : BufferItem) (li : LedgerInfoWithSignatures) :
    (item.tryAdvanceToAggregatedWithLedgerInfo v li).origin = item.origin := by
  unfold tryAdvanceToAggregatedWithLedgerInfo
  split <;> (try split) <;> rfl

/-- The item a commit vote leaves behind: with the vote's signature added and then aggregated if
the quorum is reached, or unchanged if the vote is refused.
Source: `process_commit_message` (352–363)
Kind: D -/
def withCommitVote (v : ValidatorVerifier) (vote : CommitVote) (item : BufferItem) : BufferItem :=
  match item.addSignatureIfMatched v vote.commitInfo vote.author vote.signature with
  | .ok item' => item'.tryAdvanceToAggregated v
  | .error _ => item

end BufferItem

/-! ## What each transition produces -/

/-- The commit ledger info of an executed item with a last executed block.
Source: none: infrastructure
Kind: L -/
theorem ExecutedItem.commitLedgerInfo_of_getLast? {e : ExecutedItem} {b : ExecutedBlock}
    (h : e.executedBlocks.getLast? = some b) :
    e.commitLedgerInfo = .ok ⟨b.blockInfo, e.orderedProof.ledgerInfo.consensusDataHash⟩ := by
  simp [ExecutedItem.commitLedgerInfo, h]

/-- Signing an executed item with a last executed block: the item keeps its data, gains the vote
on its commit ledger info, and its signature map is `{author ↦ signature}`.
Source: spec §4.1 `advance_to_signed`
Kind: L -/
theorem ExecutedItem.advanceToSigned_of_getLast? {e : ExecutedItem} {b : ExecutedBlock}
    (h : e.executedBlocks.getLast? = some b) (a : Author) (sig : Signature) :
    e.advanceToSigned a sig =
      .ok ({ e with commitVote := ⟨a, ⟨b.blockInfo, e.orderedProof.ledgerInfo.consensusDataHash⟩, sig⟩,
                    signatures := [(a, sig)] },
           ⟨a, ⟨b.blockInfo, e.orderedProof.ledgerInfo.consensusDataHash⟩, sig⟩) := by
  simp [ExecutedItem.advanceToSigned, commitLedgerInfo_of_getLast? h]

/-- Source: none: infrastructure. Kind: L -/
@[simp] theorem OrderedItem.toOrderedItem_advanceToExecuted (o : OrderedItem)
    (bs : List ExecutedBlock) : (o.advanceToExecuted bs).toOrderedItem = o := rfl

/-- Source: none: infrastructure. Kind: L -/
@[simp] theorem OrderedItem.executedBlocks_advanceToExecuted (o : OrderedItem)
    (bs : List ExecutedBlock) : (o.advanceToExecuted bs).executedBlocks = bs := rfl

/-- What signing returns: the same executed item with the vote, which signs the item's commit
ledger info. Source: spec §4.1 `advance_to_signed`. Kind: L -/
theorem ExecutedItem.advanceToSigned_eq_ok {e : ExecutedItem} {a : Author} {sig : Signature}
    {si : SignedItem} {vote : CommitVote} (h : e.advanceToSigned a sig = .ok (si, vote)) :
    si.toExecutedItem = e ∧ si.commitVote = vote ∧ e.commitLedgerInfo = .ok vote.ledgerInfo := by
  unfold advanceToSigned at h
  cases hc : e.commitLedgerInfo with
  | error _ => simp [hc] at h
  | ok li =>
    simp only [hc, except_ok_bind, except_pure_eq_ok, Except.ok.injEq, Prod.mk.injEq] at h
    obtain ⟨rfl, rfl⟩ := h
    exact ⟨rfl, rfl, rfl⟩

/-- A newly Signed item's signature map holds the local signature only.
Source: spec §4.1 `advance_to_signed` ("Seeds the aggregator with `{author → signature}`")
Kind: L -/
theorem ExecutedItem.signatures_of_advanceToSigned {e : ExecutedItem} {a : Author}
    {sig : Signature} {si : SignedItem} {vote : CommitVote}
    (h : e.advanceToSigned a sig = .ok (si, vote)) : si.signatures = [(a, sig)] := by
  unfold advanceToSigned at h
  cases hc : e.commitLedgerInfo with
  | error _ => simp [hc] at h
  | ok li =>
    simp only [hc, except_ok_bind, except_pure_eq_ok, Except.ok.injEq, Prod.mk.injEq] at h
    rw [← h.1]

namespace BufferItem

/-- A vote on an item that is not Signed leaves it as it is. Source: spec §4.1. Kind: L -/
theorem withCommitVote_of_not_signed {v : ValidatorVerifier} {vote : CommitVote}
    {item : BufferItem} (h : ∀ si, item ≠ signed si) : item.withCommitVote v vote = item := by
  cases item <;> simp_all [withCommitVote, addSignatureIfMatched]

/-- A vote on a Signed item leaves it Signed, with the same executed data and commit vote, or
makes it Aggregated, with a quorum of signatures on its commit ledger info.
Source: spec §4.1 `add_signature_if_matched`, `try_advance_to_aggregated`
Kind: L -/
theorem withCommitVote_signed (v : ValidatorVerifier) (vote : CommitVote) (si : SignedItem) :
    (∃ si', (signed si).withCommitVote v vote = signed si' ∧
      si'.toExecutedItem = si.toExecutedItem ∧ si'.commitVote = si.commitVote) ∨
    (∃ a, (signed si).withCommitVote v vote = aggregated a ∧ a.toOrderedItem = si.toOrderedItem ∧
      a.aggregatedProof.ledgerInfo = si.commitVote.ledgerInfo ∧
      v.checkVotingPower (a.aggregatedProof.signatures.map Prod.fst) = true) := by
  simp only [withCommitVote, addSignatureIfMatched]
  split_ifs with h1 h2
  · exact .inl ⟨si, rfl, rfl, rfl⟩
  · exact .inl ⟨si, rfl, rfl, rfl⟩
  · simp only [tryAdvanceToAggregated]
    split_ifs with h3
    · exact .inr ⟨_, rfl, rfl, rfl, h3⟩
    · exact .inl ⟨_, rfl, rfl, rfl⟩

/-- A vote that leaves a Signed item Signed keeps its executed data and its commit vote.
Source: spec §4.1 `add_signature_if_matched`
Kind: L -/
theorem withCommitVote_eq_signed {v : ValidatorVerifier} {vote : CommitVote} {si si' : SignedItem}
    (h : (signed si).withCommitVote v vote = signed si') :
    si'.toExecutedItem = si.toExecutedItem ∧ si'.commitVote = si.commitVote := by
  rcases withCommitVote_signed v vote si with ⟨si'', h', h1, h2⟩ | ⟨a, h', -⟩ <;> rw [h] at h'
  · cases h'
    exact ⟨h1, h2⟩
  · cases h'

/-- A vote that matches a Signed item's commit info and verifies inserts its signature; the item
is then aggregated if its signatures reach the quorum.
Source: spec §4.1 `add_signature_if_matched`, `try_advance_to_aggregated`
Kind: L -/
theorem withCommitVote_of_matched {v : ValidatorVerifier} {vote : CommitVote} {si : SignedItem}
    (hinfo : si.commitVote.ledgerInfo.commitInfo = vote.commitInfo)
    (hver : v.verify vote.author si.commitVote.ledgerInfo vote.signature = true) :
    (signed si).withCommitVote v vote = (signed { si with
      signatures := insertSignature vote.author vote.signature si.signatures }).tryAdvanceToAggregated v := by
  simp [withCommitVote, addSignatureIfMatched, hinfo, hver]

/-- A vote that carries another commit info than a Signed item's, or does not verify on its commit
ledger info, leaves the item as it is.
Source: spec §4.1 `add_signature_if_matched`; `process_commit_message` (359–362)
Kind: L -/
theorem withCommitVote_of_refused {v : ValidatorVerifier} {vote : CommitVote} {si : SignedItem}
    (h : si.commitVote.ledgerInfo.commitInfo = vote.commitInfo →
      v.verify vote.author si.commitVote.ledgerInfo vote.signature = false) :
    (signed si).withCommitVote v vote = signed si := by
  by_cases hinfo : si.commitVote.ledgerInfo.commitInfo = vote.commitInfo
  · simp [withCommitVote, addSignatureIfMatched, hinfo, h hinfo]
  · simp [withCommitVote, addSignatureIfMatched, hinfo]

/-- A vote that aggregates a Signed item makes its proof the item's commit ledger info, with a
quorum of signatures. Source: spec §4.1 `try_advance_to_aggregated`. Kind: L -/
theorem withCommitVote_eq_aggregated {v : ValidatorVerifier} {vote : CommitVote} {si : SignedItem}
    {a : AggregatedItem} (h : (signed si).withCommitVote v vote = aggregated a) :
    a.toOrderedItem = si.toOrderedItem ∧ a.aggregatedProof.ledgerInfo = si.commitVote.ledgerInfo ∧
      v.checkVotingPower (a.aggregatedProof.signatures.map Prod.fst) = true := by
  rcases withCommitVote_signed v vote si with ⟨si', h', -⟩ | ⟨a', h', h1⟩ <;> rw [h] at h'
  · cases h'
  · cases h'
    exact h1

/-- The signatures an item holds: its signature map when Signed, its proof's when Aggregated.
Source: spec §3 (Signed and Aggregated rows)
Kind: D -/
def heldSignatures : BufferItem → List (Author × Signature)
  | signed s => s.signatures
  | aggregated a => a.aggregatedProof.signatures
  | _ => []

/-- A vote never gives an item a second signature of one author, and the proof a quorum builds
lists each author once.
Source: spec §4.1 `add_signature_if_matched`, `try_advance_to_aggregated`
Kind: L -/
theorem withCommitVote_heldSignatures_nodup (v : ValidatorVerifier) (vote : CommitVote)
    {item : BufferItem} (h : (item.heldSignatures.map Prod.fst).Nodup) :
    ((item.withCommitVote v vote).heldSignatures.map Prod.fst).Nodup := by
  cases item with
  | signed si =>
    simp only [withCommitVote, addSignatureIfMatched]
    split_ifs
    · exact h
    · exact h
    · simp only [tryAdvanceToAggregated]
      split_ifs <;> exact insertSignature_nodup _ _ h
  | _ => simpa [withCommitVote, addSignatureIfMatched] using h

/-- A vote adds to a Signed item only its own signature, and only when that signature verifies on
the item's commit ledger info.
Source: spec §4.1 `add_signature_if_matched` ("fails with `InvalidSignature` if verification
fails")
Kind: L -/
theorem mem_heldSignatures_withCommitVote {v : ValidatorVerifier} {vote : CommitVote}
    {si : SignedItem} {sg : Author × Signature}
    (h : sg ∈ ((signed si).withCommitVote v vote).heldSignatures) :
    sg ∈ si.signatures ∨
      (sg = (vote.author, vote.signature) ∧
        v.verify vote.author si.commitVote.ledgerInfo vote.signature = true) := by
  simp only [withCommitVote, addSignatureIfMatched] at h
  split_ifs at h with h1 h2
  · exact .inl h
  · exact .inl h
  · simp only [Bool.not_eq_true', Bool.not_eq_false] at h2
    have hmem : sg ∈ insertSignature vote.author vote.signature si.signatures := by
      simp only [tryAdvanceToAggregated] at h
      split_ifs at h <;> exact h
    simp only [insertSignature, List.mem_cons, List.mem_filter] at hmem
    exact hmem.symm.imp And.left fun h => ⟨h, h2⟩

/-- Source: none: infrastructure. Kind: L -/
@[simp] theorem origin_withCommitVote (v : ValidatorVerifier) (vote : CommitVote)
    (item : BufferItem) : (item.withCommitVote v vote).origin = item.origin := by
  unfold withCommitVote
  split
  · rename_i h; rw [origin_tryAdvanceToAggregated, origin_addSignatureIfMatched h]
  · rfl

/-- The sync transition either leaves the item as it is or makes it Aggregated with the ledger
info as its proof, when the ledger info verifies and commits the item's block.
Source: spec §4.1 `try_advance_to_aggregated_with_ledger_info`
Kind: L -/
theorem tryAdvanceToAggregatedWithLedgerInfo_cases (v : ValidatorVerifier) (item : BufferItem)
    (li : LedgerInfoWithSignatures) :
    item.tryAdvanceToAggregatedWithLedgerInfo v li = item ∨
    (item.tryAdvanceToAggregatedWithLedgerInfo v li = aggregated { item.origin with aggregatedProof := li } ∧
      v.verifySignatures li = true ∧ li.commitInfo.id = item.blockId) := by
  unfold tryAdvanceToAggregatedWithLedgerInfo
  split
  · exact .inl rfl
  · split_ifs with h
    · exact .inr ⟨rfl, h⟩
    · exact .inl rfl

/-- An item that is not Aggregated becomes Aggregated under a ledger info that verifies and
commits its block. Source: spec §4.1 `try_advance_to_aggregated_with_ledger_info`. Kind: L -/
theorem tryAdvanceToAggregatedWithLedgerInfo_of_verified {v : ValidatorVerifier} {item : BufferItem}
    {li : LedgerInfoWithSignatures} (hna : item.isAggregated = false)
    (hver : v.verifySignatures li = true) (hid : li.commitInfo.id = item.blockId) :
    item.tryAdvanceToAggregatedWithLedgerInfo v li =
      aggregated { item.origin with aggregatedProof := li } := by
  cases item with
  | aggregated a => simp [isAggregated] at hna
  | _ => simp_all [tryAdvanceToAggregatedWithLedgerInfo]

end BufferItem

end BufferManager
