import BufferManager.Quorum

/-!
# The manager never equivocates

A validator that broadcast two different commit votes for one block would have signed two
commit ledger infos for it. The manager signs an Executed item once, when the signing response for
it arrives; it stores the vote in the Signed item, a commit vote from a peer keeps that stored
vote, and every retry tick re-broadcasts the stored vote. A block that has left the buffer never
comes back. So:

* **`reachable_votes_unequivocal`**: in every reachable state, any two commit votes the manager
  has broadcast for one block are the same vote, and a vote broadcast for a buffered block is the
  own vote of that block's Signed item: no vote has gone out for an Ordered or Executed item.

The run invariant is `Unequivocal`: votes only for pushed blocks, one vote per block, and the
votes of the buffered blocks held by their items (`Pipeline.HeldVotes`). One step keeps it
(`Unequivocal.step`): a step broadcasts only votes its Signed items hold afterwards
(`Pipeline.Step.sentVotes_held`), and changes items only in the shapes of
`Pipeline.Step.items_cases`, each of which keeps the held votes (`Pipeline.Step.heldVotes`).
-/

namespace BufferManager

/-- The commit vote an item holds: a Signed item's own vote.
Source: spec §3 (Signed row: "local commit vote")
Kind: D -/
def BufferItem.commitVote? : BufferItem → Option CommitVote
  | .signed si => some si.commitVote
  | _ => none

/-- Source: none: infrastructure. Kind: L -/
theorem BufferItem.commitVote?_eq_some {x : BufferItem} {vote : CommitVote} :
    x.commitVote? = some vote ↔ ∃ si, x = .signed si ∧ si.commitVote = vote := by
  cases x <;> simp [BufferItem.commitVote?]

namespace Pipeline

variable {v : ValidatorVerifier} {au : Author} {p p' : Pipeline} {e : Event}
  {sent outs : List Output}

/-- Every vote sent for a block of the pipeline is the vote its item holds.
Source: spec §5 ("Commit-vote broadcasts for a given block may occur multiple times")
Kind: D -/
def HeldVotes (p : Pipeline) (sent : List Output) : Prop :=
  ∀ x ∈ p.items, ∀ vote ∈ sentVotes sent, vote.commitInfo.id = x.2.blockId →
    x.2.commitVote? = some vote

/-- In a well-formed pipeline a Signed item's vote is held by the item of its block.
Source: none: infrastructure
Kind: L -/
theorem WellFormed.commitVote?_of_signed (hw : p.WellFormed) {n : Nat} {si : SignedItem}
    (hy : (n, si) ∈ p.signed) {x : Nat × BufferItem} (hx : x ∈ p.items)
    (hid : si.commitVote.commitInfo.id = x.2.blockId) : x.2.commitVote? = some si.commitVote := by
  obtain rfl := hw.eq_of_blockId_eq hx (mem_items_of_mem_signed hy)
    ((hw.signed_commit _ hy).symm.trans hid)
  rfl

/-- Keeping items, and adding only items of blocks no vote was sent for, keeps the votes held.
Source: none: infrastructure
Kind: L -/
theorem HeldVotes.of_mem_or_fresh (hv : p.HeldVotes sent)
    (h : ∀ y ∈ p'.items, y ∈ p.items ∨ ∀ vote ∈ sentVotes sent, vote.commitInfo.id ≠ y.2.blockId) :
    p'.HeldVotes sent := by
  intro y hy vote hvote hid
  rcases h y hy with hy | hfresh
  · exact hv y hy vote hvote hid
  · exact absurd hid (hfresh vote hvote)

/-- Replacing an item in place by a state of its block that holds every vote it held keeps the
votes held.
Source: none: infrastructure
Kind: L -/
theorem HeldVotes.of_replace (hv : p.HeldVotes sent) {A B : List (Nat × BufferItem)} {c : Nat}
    {x y : BufferItem} (h : p.items = A ++ (c, x) :: B) (h' : p'.items = A ++ (c, y) :: B)
    (hid : y.blockId = x.blockId)
    (hxy : ∀ vote, x.commitVote? = some vote → y.commitVote? = some vote) :
    p'.HeldVotes sent := by
  intro z hz vote hvote hzid
  rw [h', List.mem_append, List.mem_cons, or_left_comm] at hz
  rcases hz with rfl | hz
  · exact hxy vote (hv (c, x) (by simp [h]) vote hvote (hzid.trans hid))
  · exact hv z (by rw [h]; rcases hz with hz | hz <;> simp [hz]) vote hvote hzid

/-- **A step keeps the votes already sent held**: an execution or a signature replaces an item that
held no vote, a commit vote keeps the Signed item's vote, and a pushed block had no vote sent.
Source: the arms of `start` (411–445)
Kind: L -/
theorem Step.heldVotes (hs : p.Step v au e p' outs) (hv : p.HeldVotes sent)
    (hnew : ∀ b ∈ pushedIds [e], ∀ vote ∈ sentVotes sent, vote.commitInfo.id ≠ b) :
    p'.HeldVotes sent := by
  rcases hs.items_cases with hkept | ⟨A, B, c, x, y, h, h', hxy⟩
  · exact hv.of_mem_or_fresh fun y hy => (hkept y hy).imp_right (hnew _)
  · rcases hxy with ⟨o, bs, rfl, rfl⟩ | ⟨ex, si, sig, vote, rfl, rfl, hadv⟩ |
      ⟨vote, si, si', rfl, rfl, hsi⟩
    · exact hv.of_replace h h' rfl (by simp [BufferItem.commitVote?])
    · exact hv.of_replace h h' (blockId_of_advanceToSigned hadv) (by simp [BufferItem.commitVote?])
    · exact hv.of_replace h h' (blockId_of_withCommitVote hsi)
        (by simp [BufferItem.commitVote?, (BufferItem.withCommitVote_eq_signed hsi).2])

/-- **A step broadcasts only votes its Signed items hold afterwards**: the vote of the item it
signs, or, on a tick, the vote of every Signed item.
Source: `process_signing_response` (327–330); `retry_broadcasting_commit_votes` (389–394)
Kind: L -/
theorem Step.sentVotes_held (hs : p.Step v au e p' outs) :
    ∀ vote ∈ sentVotes outs, ∃ y ∈ p'.signed, y.2.commitVote = vote := by
  cases hs with
  | @sign r c x rest sig si vote hp he hsig hadv =>
    intro vote' hv
    obtain rfl : vote' = vote := by simpa using hv
    exact ⟨(c, si), by simp [sign_of_cons hp], (ExecutedItem.advanceToSigned_eq_ok hadv).2.1⟩
  | tick =>
    intro vote hv
    simpa [sentVotes, List.filterMap_map, Function.comp_def] using hv
  | push | execute => split <;> simp
  | signNothing | voteNothing | vote | voteAggregate | syncNothing | syncAggregate
    | syncReconfig => simp

end Pipeline

/-! ## The run invariant -/

/-- The manager has broadcast votes only for blocks it was given, one vote per block, and the vote
of a buffered block is held by its Signed item.
Source: spec §5 ("Commit-vote broadcasts for a given block may occur multiple times")
Kind: D -/
structure Unequivocal (p : Pipeline) (h : List Event) (sent : List Output) : Prop where
  /-- Votes are for pushed blocks. -/
  pushed : ∀ vote ∈ sentVotes sent, vote.commitInfo.id ∈ pushedIds h
  /-- Two votes for one block are the same vote. -/
  unique : ∀ vote ∈ sentVotes sent, ∀ vote' ∈ sentVotes sent,
    vote'.commitInfo.id = vote.commitInfo.id → vote' = vote
  /-- A buffered block's vote is its Signed item's. -/
  held : p.HeldVotes sent

namespace Unequivocal

variable {v : ValidatorVerifier} {au : Author} {p p' : Pipeline} {h : List Event} {e : Event}
  {sent outs : List Output}

/-- Source: `StateManager::new` (93–138). Kind: L -/
theorem init : Unequivocal ⟨[], [], []⟩ [] [] :=
  ⟨by simp, by simp, by simp [Pipeline.HeldVotes]⟩

/-- **One step keeps the manager unequivocal.** A new vote is held by its Signed item, so any
vote for its block, old or new, is that same vote; two old votes agree by the invariant.
Source: the arms of `start` (411–445)
Kind: L -/
theorem step (hu : Unequivocal p h sent) (hi : Invariant p h sent) (hs : p.Step v au e p' outs)
    (ha : Admissible sent h e) : Unequivocal p' (h ++ [e]) (sent ++ outs) := by
  have hw' := hs.wellFormed hi.wellFormed fun b hb hmem => ha.fresh b hb (hi.ids_pushed b hmem)
  have hheld : p'.HeldVotes (sent ++ outs) := by
    intro x hx vote hvote hid
    rw [sentVotes_append, List.mem_append] at hvote
    rcases hvote with hvote | hvote
    · exact hs.heldVotes hu.held (fun b hb vote hvote hid => ha.fresh b hb (hid ▸ hu.pushed vote hvote))
        x hx vote hvote hid
    · obtain ⟨⟨n, si⟩, hy, rfl⟩ := hs.sentVotes_held vote hvote
      exact hw'.commitVote?_of_signed hy hx hid
  have hnew : ∀ vote ∈ sentVotes outs, ∀ vote' ∈ sentVotes (sent ++ outs),
      vote'.commitInfo.id = vote.commitInfo.id → vote' = vote := by
    intro vote hvote vote' hvote' hid
    obtain ⟨⟨n, si⟩, hy, rfl⟩ := hs.sentVotes_held vote hvote
    have hheld' := hheld _ (Pipeline.mem_items_of_mem_signed hy) vote' hvote'
      (hid.trans (hw'.signed_commit _ hy))
    exact (Option.some.inj hheld').symm
  refine ⟨?_, ?_, hheld⟩
  · simp only [sentVotes_append, List.mem_append, pushedIds_append]
    rintro vote (hvote | hvote)
    · exact .inl (hu.pushed vote hvote)
    · obtain ⟨⟨n, si⟩, hy, rfl⟩ := hs.sentVotes_held vote hvote
      rw [show si.commitVote.commitInfo.id = si.blockId from hw'.signed_commit _ hy]
      rcases hs.ids_subset _ (List.mem_map_of_mem (·.2.blockId) (Pipeline.mem_items_of_mem_signed hy))
        with hold | hpushed
      · exact .inl (hi.ids_pushed _ hold)
      · exact .inr hpushed
  · simp only [sentVotes_append, List.mem_append]
    rintro vote (hvote | hvote) vote' hvote' hid
    · rcases hvote' with hvote' | hvote'
      · exact hu.unique vote hvote vote' hvote' hid
      · exact (hnew vote' hvote' vote (by simp [hvote]) hid.symm).symm
    · exact hnew vote hvote vote' (by simpa using hvote') hid

end Unequivocal

/-- Every reachable state refines a pipeline that keeps the run invariant and is unequivocal.
Source: `start` (405–449)
Kind: L -/
theorem Reachable.unequivocal {v : ValidatorVerifier} {s : StateManager} {h : List Event}
    (hr : Reachable v Admissible s h) :
    ∃ p, Refines s p ∧ Invariant p h s.sent ∧ Unequivocal p h s.sent := by
  induction hr with
  | init a => exact ⟨⟨[], [], []⟩, ⟨rfl, rfl, rfl⟩, Invariant.init, Unequivocal.init⟩
  | step _ hend ha hok ih =>
    obtain ⟨p, hr, hi, hu⟩ := ih
    obtain ⟨p', outs, hs, hr', hsent⟩ :=
      StateManager.startIteration_step hr hi.wellFormed (hi.ready ha) hok
    exact ⟨p', hr', hsent ▸ hi.step hs ha, hsent ▸ hu.step hi hs ha⟩

/-- **The manager never equivocates**: any two commit votes a reachable state has broadcast for
one block, first broadcasts and retries alike, are the same vote; and a vote broadcast for a
buffered block is the own vote of its Signed item.
Source: `process_signing_response` (305–336); `retry_broadcasting_commit_votes` (377–403);
`process_commit_message` (341–375)
Kind: P -/
theorem reachable_votes_unequivocal {v : ValidatorVerifier} {s : StateManager} {h : List Event}
    (hr : Reachable v Admissible s h) :
    (∀ vote ∈ sentVotes s.sent, ∀ vote' ∈ sentVotes s.sent,
      vote'.commitInfo.id = vote.commitInfo.id → vote' = vote) ∧
    ∀ n x, ⟨n, some x⟩ ∈ s.buffer.slots → ∀ vote ∈ sentVotes s.sent,
      vote.commitInfo.id = x.blockId → ∃ si, x = .signed si ∧ si.commitVote = vote := by
  obtain ⟨p, hp, -, hu⟩ := hr.unequivocal
  exact ⟨hu.unique, fun n x hslot vote hvote hid => BufferItem.commitVote?_eq_some.mp
    (hu.held (n, x) (hp.mem_items hslot) vote hvote hid)⟩

/-- A batch executed, signed, then a tick: the vote goes out twice, and both are the same vote.
Source: none: witness
Kind: L -/
theorem reachable_votes_unequivocal_retried :
    ∃ s, Reachable quorumOfTwo Admissible s
        [.orderedBlocks (batch 1), .executionResponse (executedBatch 1),
          .signingResponse (signedBatch 1), .tick] ∧
      (sentVotes s.sent).length = 2 ∧
      ((∀ vote ∈ sentVotes s.sent, ∀ vote' ∈ sentVotes s.sent,
        vote'.commitInfo.id = vote.commitInfo.id → vote' = vote) ∧
      ∀ n x, ⟨n, some x⟩ ∈ s.buffer.slots → ∀ vote ∈ sentVotes s.sent,
        vote.commitInfo.id = x.blockId → ∃ si, x = .signed si ∧ si.commitVote = vote) := by
  obtain ⟨s, hr, hlen⟩ := @exists_reachable_of_checkRun quorumOfTwo 0
    [.orderedBlocks (batch 1), .executionResponse (executedBatch 1),
      .signingResponse (signedBatch 1), .tick]
    (fun s => (sentVotes s.sent).length = 2) _ (by decide)
  exact ⟨s, hr, hlen, reachable_votes_unequivocal hr⟩

end BufferManager
