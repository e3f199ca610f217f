import BufferManager.Lifecycle

/-!
# What a quorum counts

`add_signature_if_matched` inserts a peer's signature into the Signed item's map after checking
it, replacing an earlier signature of the same author (`insertSignature`), and
`try_advance_to_aggregated` asks the verifier whether the map's authors reach the quorum. So the
signatures a quorum is made of are distinct by author and none is made up:

* `Reachable.authors_counted_once`: in every reachable state, the signature map of every Signed
  item lists each author once, and so does the proof of every persisting request sent, unless the
  verifier accepted that proof as a whole (a state-sync ledger info, whose signatures come from
  outside the manager).
* **`reachable_signatures_received`**: each signature in such a map or proof is one the signing
  phase returned to the manager, or the signature of a commit vote the manager received, under
  that vote's author, which verifies on the ledger info it is counted for.

With `reachable_persisted_ledgerInfo_certified`, a proof the manager built itself is a quorum of
distinct authors, each of whom signed it. And a vote that is not counted leaves no trace:

* **`reachable_refused_vote_ignored`**: a commit vote that verifies on no Signed item with its
  commit info is handled without a fault and changes neither the buffer, the roots nor the
  outputs. Both rest on the run invariant `CountedSignatures`,
kept by every step (`CountedSignatures.step`); a vote is `Counted.withCommitVote`.
-/

namespace BufferManager

/-! ## What a run was given to sign with -/

/-- The commit vote a commit message carries. Source: `process_commit_message` (346). Kind: D -/
@[simp] def Event.commitVote? : Event → Option CommitVote
  | .commitMessage (.commitVote vote) => some vote
  | _ => none

/-- The signature a successful signing response returns.
Source: `process_signing_response` (310–316)
Kind: D -/
@[simp] def Event.signature? : Event → Option Signature
  | .signingResponse r => r.signatureResult.toOption
  | _ => none

/-- The commit votes received over a history. Source: none: bookkeeping. Kind: D -/
def receivedVotes (h : List Event) : List CommitVote := h.filterMap Event.commitVote?

/-- The signatures the signing phase returned over a history. Source: none: bookkeeping. Kind: D -/
def signingResults (h : List Event) : List Signature := h.filterMap Event.signature?

/-- Source: none: infrastructure. Kind: L -/
@[simp] theorem receivedVotes_append (h h' : List Event) :
    receivedVotes (h ++ h') = receivedVotes h ++ receivedVotes h' :=
  List.filterMap_append _ _ _

/-- Source: none: infrastructure. Kind: L -/
@[simp] theorem signingResults_append (h h' : List Event) :
    signingResults (h ++ h') = signingResults h ++ signingResults h' :=
  List.filterMap_append _ _ _

/-! ## Signatures a quorum may count -/

/-- Where a signature the manager counts on the ledger info `li` comes from: the signing phase
returned it, or a received commit vote of its author carried it and it verifies on `li`.
Source: `process_signing_response` (326); `process_commit_message` (352–356); spec §4.1
`add_signature_if_matched`
Kind: D -/
def SignatureSource (v : ValidatorVerifier) (h : List Event) (li : LedgerInfo)
    (sg : Author × Signature) : Prop :=
  sg.2 ∈ signingResults h ∨
    ∃ vote ∈ receivedVotes h, vote.author = sg.1 ∧ vote.signature = sg.2 ∧ v.verify sg.1 li sg.2

/-- A signature list a quorum may count on `li`: one signature per author, each from a source.
Source: spec §4.1, §4.4
Kind: D -/
structure Counted (v : ValidatorVerifier) (h : List Event) (li : LedgerInfo)
    (sigs : List (Author × Signature)) : Prop where
  /-- One signature per author. -/
  nodup : (sigs.map Prod.fst).Nodup
  /-- Each signature was returned or received. -/
  source : ∀ sg ∈ sigs, SignatureSource v h li sg

namespace Counted

variable {v : ValidatorVerifier} {h : List Event} {li : LedgerInfo}
  {sigs : List (Author × Signature)}

/-- What was counted stays countable as the history grows. Source: none: infrastructure. Kind: L -/
theorem mono (hc : Counted v h li sigs) (h' : List Event) : Counted v (h ++ h') li sigs :=
  ⟨hc.nodup, fun sg hsg => (hc.source sg hsg).imp (fun hm => by simp [hm])
    fun ⟨vote, hm, hv⟩ => ⟨vote, by simp [hm], hv⟩⟩

/-- **A vote keeps a Signed item's signatures countable**: it adds at most its own signature, under
its own author, once that signature verifies, and replaces an earlier one of that author.
Source: `process_commit_message` (352–356); spec §4.1 `add_signature_if_matched`
Kind: L -/
theorem withCommitVote {si : SignedItem} (hc : Counted v h si.commitVote.ledgerInfo si.signatures)
    (vote : CommitVote) :
    Counted v (h ++ [.commitMessage (.commitVote vote)]) si.commitVote.ledgerInfo
      ((BufferItem.signed si).withCommitVote v vote).heldSignatures where
  nodup := BufferItem.withCommitVote_heldSignatures_nodup v vote hc.nodup
  source sg hsg := by
    rcases BufferItem.mem_heldSignatures_withCommitVote hsg with hold | ⟨rfl, hver⟩
    · exact (hc.mono _).source sg hold
    · exact .inr ⟨vote, by simp [receivedVotes], rfl, rfl, hver⟩

end Counted

/-! ## The run invariant -/

/-- Every Signed item's signature map, and every proof the manager built and persisted, may be
counted on its ledger info.
Source: spec §4.1 ("duplicate authors silently overwrite"), §4.4
Kind: D -/
structure CountedSignatures (v : ValidatorVerifier) (p : Pipeline) (h : List Event)
    (sent : List Output) : Prop where
  /-- A Signed item's signatures, on its commit ledger info. -/
  signed : ∀ x ∈ p.signed, Counted v h x.2.commitVote.ledgerInfo x.2.signatures
  /-- A persisted proof the verifier did not accept as a whole. -/
  persisted : ∀ r ∈ persistingRequests sent, v.verifySignatures r.commitLedgerInfo = false →
    Counted v h r.commitLedgerInfo.ledgerInfo r.commitLedgerInfo.signatures

namespace CountedSignatures

variable {v : ValidatorVerifier} {au : Author} {p p' : Pipeline} {h : List Event} {e : Event}
  {sent outs : List Output}

/-- Source: `StateManager::new` (93–138). Kind: L -/
theorem init : CountedSignatures v ⟨[], [], []⟩ [] [] :=
  ⟨by simp, by simp⟩

/-- The proofs one step persists may be counted, or the verifier accepted them.
Source: `process_commit_message` (352–363); `process_sync_request` (262–271); `advance_head`
Kind: L -/
theorem persisted_step (hc : CountedSignatures v p h sent) (hs : p.Step v au e p' outs) :
    ∀ r ∈ persistingRequests outs, v.verifySignatures r.commitLedgerInfo = false →
      Counted v (h ++ [e]) r.commitLedgerInfo.ledgerInfo r.commitLedgerInfo.signatures := by
  cases hs with
  | @voteAggregate vote A B c si a hAB ha =>
    have hcount := (hc.signed (c, si) (by simp [hAB])).withCommitVote vote
    rw [ha] at hcount
    rw [← (BufferItem.withCommitVote_eq_aggregated ha).2.1] at hcount
    simpa [persistingRequests] using fun _ => hcount
  | @syncAggregate r hrc A B c x hitems hid hver =>
    intro r' hr' hno
    obtain rfl : r' = _ := by simpa using hr'
    simp [hver] at hno
  | push | execute => split <;> simp
  | tick => simp [persistingRequests, List.filterMap_map, Function.comp_def]
  | signNothing | sign | voteNothing | vote | syncNothing | syncReconfig => simp

/-- The Signed items after one step may be counted: a signature seeds a map with the signature the
signing phase returned, a vote is `Counted.withCommitVote`, and every other step keeps or drops
Signed items.
Source: the arms of `start` (411–445)
Kind: L -/
theorem signed_step (hc : CountedSignatures v p h sent) (hs : p.Step v au e p' outs) :
    ∀ x ∈ p'.signed, Counted v (h ++ [e]) x.2.commitVote.ledgerInfo x.2.signatures := by
  intro y hy
  rcases hs.signed_cases y hy with hy | ⟨r, x, rest, sig, vote, rfl, -, hsig, hadv, -⟩ |
    ⟨vote, si, rfl, hsi, hvote⟩
  · exact (hc.signed y hy).mono _
  · rw [ExecutedItem.signatures_of_advanceToSigned hadv]
    exact ⟨by simp, by simp [SignatureSource, signingResults, hsig, Except.toOption]⟩
  · have hcount := (hc.signed _ hsi).withCommitVote vote
    rwa [hvote, ← (BufferItem.withCommitVote_eq_signed hvote).2] at hcount

/-- **One step keeps the signatures countable.** Source: the arms of `start` (411–445). Kind: L -/
theorem step (hc : CountedSignatures v p h sent) (hs : p.Step v au e p' outs) :
    CountedSignatures v p' (h ++ [e]) (sent ++ outs) where
  signed := hc.signed_step hs
  persisted r hr := by
    rw [persistingRequests_append, List.mem_append] at hr
    exact hr.elim (fun hr hno => (hc.persisted r hr hno).mono _) (hc.persisted_step hs r)

end CountedSignatures

/-- Every reachable state refines a pipeline that keeps the run invariant and countable signatures.
Source: `start` (405–449)
Kind: L -/
theorem Reachable.countedSignatures {v : ValidatorVerifier} {s : StateManager} {h : List Event}
    (hr : Reachable v Admissible s h) :
    ∃ p, Refines s p ∧ Invariant p h s.sent ∧ CountedSignatures v p h s.sent := by
  induction hr with
  | init a => exact ⟨⟨[], [], []⟩, ⟨rfl, rfl, rfl⟩, Invariant.init, CountedSignatures.init⟩
  | step _ hend ha hok ih =>
    obtain ⟨p, hr, hi, hc⟩ := ih
    obtain ⟨p', outs, hs, hr', hsent⟩ :=
      StateManager.startIteration_step hr hi.wellFormed (hi.ready ha) hok
    exact ⟨p', hr', hsent ▸ hi.step hs ha, hsent ▸ hc.step hs⟩

/-- The Signed items of a reachable state and the proofs it persisted may be counted.
Source: `start` (405–449)
Kind: L -/
theorem Reachable.counted {v : ValidatorVerifier} {s : StateManager} {h : List Event}
    (hr : Reachable v Admissible s h) :
    (∀ n si, ⟨n, some (.signed si)⟩ ∈ s.buffer.slots →
      Counted v h si.commitVote.ledgerInfo si.signatures) ∧
    ∀ r ∈ persistingRequests s.sent, v.verifySignatures r.commitLedgerInfo = false →
      Counted v h r.commitLedgerInfo.ledgerInfo r.commitLedgerInfo.signatures := by
  obtain ⟨p, hp, -, hc⟩ := hr.countedSignatures
  exact ⟨fun n si hslot => hc.signed (n, si) (Pipeline.mem_signed_of_mem_items (hp.mem_items hslot)),
    hc.persisted⟩

/-! ## Distinct authors, and signatures not made up -/

/-- A quorum counts each author once: every Signed item of a reachable state holds one signature
per author, and every persisting request sent carries a proof that lists each author once, unless
the verifier accepted it as a whole. This is the signature map keyed by author, carried along the
run.
Source: `process_commit_message` (341–375); `process_sync_request` (246–282); spec §4.1
("duplicate authors silently overwrite"), §4.4
Kind: L -/
theorem Reachable.authors_counted_once {v : ValidatorVerifier} {s : StateManager}
    {h : List Event} (hr : Reachable v Admissible s h) :
    (∀ n si, ⟨n, some (.signed si)⟩ ∈ s.buffer.slots → (si.signatures.map Prod.fst).Nodup) ∧
    ∀ r ∈ persistingRequests s.sent, v.verifySignatures r.commitLedgerInfo = false →
      (r.commitLedgerInfo.signatures.map Prod.fst).Nodup :=
  ⟨fun n si hslot => (hr.counted.1 n si hslot).nodup,
    fun r hr' hno => (hr.counted.2 r hr' hno).nodup⟩

/-- **No signature is made up**: each signature a Signed item of a reachable state holds, and each
signature of a persisted proof the verifier did not accept as a whole, is one the signing phase
returned, or that of a received commit vote, under the vote's author, which verifies on the ledger
info it is counted for.
Source: `process_signing_response` (305–336); `process_commit_message` (341–375); spec §4.1
`add_signature_if_matched`
Kind: P -/
theorem reachable_signatures_received {v : ValidatorVerifier} {s : StateManager}
    {h : List Event} (hr : Reachable v Admissible s h) :
    (∀ n si, ⟨n, some (.signed si)⟩ ∈ s.buffer.slots →
      ∀ sg ∈ si.signatures, SignatureSource v h si.commitVote.ledgerInfo sg) ∧
    ∀ r ∈ persistingRequests s.sent, v.verifySignatures r.commitLedgerInfo = false →
      ∀ sg ∈ r.commitLedgerInfo.signatures, SignatureSource v h r.commitLedgerInfo.ledgerInfo sg :=
  ⟨fun n si hslot => (hr.counted.1 n si hslot).source,
    fun r hr' hno => (hr.counted.2 r hr' hno).source⟩

/-- A validator set in which two votes are a quorum, every signature verifies and no ledger info
is accepted as a whole. Source: none: a concrete verifier. Kind: D -/
def quorumOfTwoNoSync : ValidatorVerifier :=
  ⟨fun _ _ _ => true, fun authors => decide (2 ≤ authors.length), fun _ => false⟩

/-- After `firstPersisted`, the second batch is Signed with the manager's own signature, and the
persisted proof holds that signature and the vote's. Source: none: witness. Kind: L -/
theorem reachable_signatures_received_firstPersisted :
    ∃ s, Reachable quorumOfTwoNoSync Admissible s firstPersisted ∧
      (s.buffer.slots.filterMap Slot.elem).map BufferItem.heldSignatures = [[(0, 2)]] ∧
      (persistingRequests s.sent).map (·.commitLedgerInfo.signatures) = [[(1, 1), (0, 1)]] ∧
      (∀ n si, ⟨n, some (.signed si)⟩ ∈ s.buffer.slots →
        ∀ sg ∈ si.signatures, SignatureSource quorumOfTwoNoSync firstPersisted
          si.commitVote.ledgerInfo sg) ∧
      ∀ r ∈ persistingRequests s.sent, quorumOfTwoNoSync.verifySignatures r.commitLedgerInfo = false →
        ∀ sg ∈ r.commitLedgerInfo.signatures,
          SignatureSource quorumOfTwoNoSync firstPersisted r.commitLedgerInfo.ledgerInfo sg := by
  obtain ⟨s, hr, hheld, hproof⟩ := @exists_reachable_of_checkRun quorumOfTwoNoSync 0 firstPersisted
    (fun s => (s.buffer.slots.filterMap Slot.elem).map BufferItem.heldSignatures = [[(0, 2)]] ∧
      (persistingRequests s.sent).map (·.commitLedgerInfo.signatures) = [[(1, 1), (0, 1)]]) _
    (by decide)
  exact ⟨s, hr, hheld, hproof, reachable_signatures_received hr⟩

/-! ## Votes that do not count -/

/-- **A commit vote that does not verify changes nothing**: in every reachable state, a vote that
verifies on the commit ledger info of no Signed item with the vote's commit info (a forged
signature, a vote on another execution result of a buffered block, a vote for a block that is
not Signed here) is handled without a fault, and leaves the buffer's items, both roots, the epoch
flag and the outputs as they were.
Source: `process_commit_message` (341–375); `start` (438–442); spec §4.1
`add_signature_if_matched`
Kind: P -/
theorem reachable_refused_vote_ignored {v : ValidatorVerifier} {s : StateManager}
    {h : List Event} (hr : Reachable v Admissible s h) (vote : CommitVote)
    (hrefused : ∀ n si, ⟨n, some (.signed si)⟩ ∈ s.buffer.slots →
      si.commitVote.ledgerInfo.commitInfo = vote.commitInfo →
      v.verify vote.author si.commitVote.ledgerInfo vote.signature = false) :
    ∃ s', s.startIteration v (.commitMessage (.commitVote vote)) = .ok s' ∧
      s'.buffer.slots = s.buffer.slots ∧ s'.executionRoot = s.executionRoot ∧
      s'.signingRoot = s.signingRoot ∧ s'.endEpoch = s.endEpoch ∧ s'.sent = s.sent := by
  obtain ⟨p, hp, hi⟩ := hr.invariant
  have hkeep {c : Nat} {si : SignedItem} (hmem : (c, si) ∈ p.signed) :
      (BufferItem.signed si).withCommitVote v vote = .signed si :=
    BufferItem.withCommitVote_of_refused
      (hrefused c si (hp.mem_slots (Pipeline.mem_items_of_mem_signed hmem)))
  obtain ⟨s', hok, hcases⟩ := StateManager.startIteration_commitVote (v := v) hp hi.wellFormed vote
  obtain ⟨hp', hsent⟩ : Refines s' p ∧ s'.sent = s.sent := by
    rcases hcases with ⟨-, hp', hsent⟩ | ⟨A, c, si, B, si', hAB, -, hsi', hp', hsent⟩ |
        ⟨A, c, si, B, a, hAB, -, ha, -⟩
    · exact ⟨hp', hsent⟩
    · rw [hkeep (show (c, si) ∈ p.signed by simp [hAB])] at hsi'
      cases hsi'
      rw [← hAB] at hp'
      exact ⟨hp', hsent⟩
    · rw [hkeep (show (c, si) ∈ p.signed by simp [hAB])] at ha
      cases ha
  exact ⟨s', hok, hp'.slots.trans hp.slots.symm, hp'.executionRoot.trans hp.executionRoot.symm,
    hp'.signingRoot.trans hp.signingRoot.symm,
    StateManager.startIteration_commitMessage_endEpoch hok, hsent⟩

/-- A validator set in which two votes are a quorum and a signature verifies only when it is its
author's id. Source: none: a concrete verifier. Kind: D -/
def signedByOwnId : ValidatorVerifier :=
  ⟨fun a _ sig => sig == a, fun authors => decide (2 ≤ authors.length), fun _ => true⟩

/-- A vote with a forged signature on a Signed batch changes nothing. Source: none: witness.
Kind: L -/
theorem reachable_refused_vote_ignored_forged :
    ∃ s, Reachable signedByOwnId Admissible s [.orderedBlocks (batch 1),
        .executionResponse (executedBatch 1), .signingResponse (signedBatch 1)] ∧
      (s.buffer.slots.filterMap Slot.elem).map BufferItem.blockId = [(voteFor 1 2).commitInfo.id] ∧
      (∀ n si, ⟨n, some (.signed si)⟩ ∈ s.buffer.slots →
        si.commitVote.ledgerInfo.commitInfo = (voteFor 1 2).commitInfo →
        signedByOwnId.verify 2 si.commitVote.ledgerInfo 5 = false) ∧
      ∃ s', s.startIteration signedByOwnId
          (.commitMessage (.commitVote ⟨2, (voteFor 1 2).ledgerInfo, 5⟩)) = .ok s' ∧
        s'.buffer.slots = s.buffer.slots ∧ s'.executionRoot = s.executionRoot ∧
        s'.signingRoot = s.signingRoot ∧ s'.endEpoch = s.endEpoch ∧ s'.sent = s.sent := by
  obtain ⟨s, hr, hids⟩ := @exists_reachable_of_checkRun signedByOwnId 0
    [.orderedBlocks (batch 1), .executionResponse (executedBatch 1),
      .signingResponse (signedBatch 1)]
    (fun s => (s.buffer.slots.filterMap Slot.elem).map BufferItem.blockId = [1]) _ (by decide)
  have hforged : ∀ n si, ⟨n, some (.signed si)⟩ ∈ s.buffer.slots →
      si.commitVote.ledgerInfo.commitInfo = (voteFor 1 2).commitInfo →
      signedByOwnId.verify 2 si.commitVote.ledgerInfo 5 = false := fun _ _ _ _ => rfl
  exact ⟨s, hr, hids, hforged, reachable_refused_vote_ignored hr _ hforged⟩

end BufferManager
