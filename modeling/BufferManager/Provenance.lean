import BufferManager.Reachable

/-!
# What the manager sends comes from what it received

A commit vote is broadcast when an Executed item is signed, and again by every retry tick. The
vote signs the item's commit ledger info, whose block info is that of the item's last executed
block, which an execution response returned; a peer's commit vote may complete a quorum but never
replaces the item's own vote. So a node never votes for a state its execution phase did not
produce. Likewise every request carries what the manager was given: an execution request the
blocks of a batch it received, a signing request that batch's ordering proof and a block info the
execution phase returned.

* `executedInfos h` — the block infos of the last blocks the execution responses of `h` returned;
  `sentVotes` — the commit votes among the outputs.
* `VoteSource p vote` — the vote is a Signed item's own, or signs the last executed block of an
  Executed item. `Pipeline.Step.signed_source` and `Pipeline.Step.sentVotes_source`: every vote a
  step leaves on a Signed item or broadcasts has a source before the step.
* `OwnVotes` — Executed items' last blocks, Signed items' votes and the votes sent all come from
  execution responses. **`OwnVotes.step`** keeps it over every step.
* **`reachable_votes_executed`** — every commit vote a reachable state has broadcast commits a
  block info the execution phase returned.
* **`reachable_requests_carry_inputs`** — every execution request carries a received batch's
  blocks; every signing request its ordering proof and a block info the execution phase returned.
-/

namespace BufferManager

/-! ## What a run was told and what it broadcast -/

/-- The block info of the last block an execution response returned.
Source: `process_execution_response` (291–293)
Kind: D -/
@[simp] def Event.executedInfo? : Event → Option BlockInfo
  | .executionResponse r =>
    match r.inner with
    | .ok blocks => blocks.getLast?.map ExecutedBlock.blockInfo
    | .error _ => none
  | _ => none

/-- The commit vote an output broadcasts, if it is one. Source: none: bookkeeping. Kind: D -/
@[simp] def Output.commitVote? : Output → Option CommitVote
  | .commitVote vote => some vote
  | _ => none

/-- The block infos the execution phase returned over a history.
Source: `process_execution_response` (285–302)
Kind: D -/
def executedInfos (h : List Event) : List BlockInfo := h.filterMap Event.executedInfo?

/-- The commit votes broadcast. Source: `process_signing_response` (327–330);
`retry_broadcasting_commit_votes` (389–394). Kind: D -/
def sentVotes (outs : List Output) : List CommitVote := outs.filterMap Output.commitVote?

/-- Source: none: infrastructure. Kind: L -/
@[simp] theorem executedInfos_append (h h' : List Event) :
    executedInfos (h ++ h') = executedInfos h ++ executedInfos h' :=
  List.filterMap_append _ _ _

/-- Source: none: infrastructure. Kind: L -/
@[simp] theorem sentVotes_append (l l' : List Output) :
    sentVotes (l ++ l') = sentVotes l ++ sentVotes l' := List.filterMap_append _ _ _

/-- Source: none: infrastructure. Kind: L -/
@[simp] theorem sentVotes_cons (o : Output) (l : List Output) :
    sentVotes (o :: l) = o.commitVote?.toList ++ sentVotes l := by
  rw [sentVotes, List.filterMap_cons]
  cases o.commitVote? <;> rfl

/-- Source: none: infrastructure. Kind: L -/
@[simp] theorem sentVotes_nil : sentVotes [] = [] := rfl

/-- Source: none: infrastructure. Kind: L -/
@[simp] theorem sentVotes_executionRequests (q : Pipeline) : sentVotes q.executionRequests = [] := by
  simp [Pipeline.executionRequests, sentVotes]

/-- Source: none: infrastructure. Kind: L -/
@[simp] theorem sentVotes_signingRequests (q : Pipeline) : sentVotes q.signingRequests = [] :=
  List.filterMap_eq_nil_iff.mpr fun _ ho => by
    obtain ⟨r, rfl⟩ := Pipeline.exists_of_mem_signingRequests ho
    rfl

/-- An executed item's commit ledger info commits the block info of its last executed block.
Source: `advance_signing_root` (175–181)
Kind: L -/
theorem ExecutedItem.commitInfo_of_commitLedgerInfo {e : ExecutedItem} {li : LedgerInfo}
    (h : e.commitLedgerInfo = .ok li) :
    ∃ b ∈ e.executedBlocks.getLast?, li.commitInfo = b.blockInfo := by
  cases hb : e.executedBlocks.getLast? with
  | none => simp [ExecutedItem.commitLedgerInfo, hb] at h
  | some b =>
    rw [ExecutedItem.commitLedgerInfo_of_getLast? hb, Except.ok.injEq] at h
    exact ⟨b, rfl, by rw [← h]⟩

/-- A vote made by signing an executed item commits the block info of its last executed block.
Source: spec §4.1 `advance_to_signed`
Kind: L -/
theorem ExecutedItem.commitInfo_of_advanceToSigned {e : ExecutedItem} {a : Author}
    {sig : Signature} {si : SignedItem} {vote : CommitVote}
    (h : e.advanceToSigned a sig = .ok (si, vote)) :
    ∃ b ∈ e.executedBlocks.getLast?, vote.ledgerInfo.commitInfo = b.blockInfo :=
  commitInfo_of_commitLedgerInfo (ExecutedItem.advanceToSigned_eq_ok h).2.2

/-! ## Where a vote comes from -/

/-- A vote a pipeline accounts for: the own vote of a Signed item, or a vote that signs the last
executed block of an Executed item. Source: spec §4.1. Kind: D -/
def VoteSource (p : Pipeline) (vote : CommitVote) : Prop :=
  (∃ y ∈ p.signed, y.2.commitVote = vote) ∨
    ∃ y ∈ p.executed, ∃ b ∈ y.2.executedBlocks.getLast?, vote.ledgerInfo.commitInfo = b.blockInfo

namespace Pipeline

variable {v : ValidatorVerifier} {au : Author} {p p' : Pipeline} {e : Event}
  {outs : List Output}

/-- **An Executed item after a step** was one before, or the step's execution response returned
its blocks. Source: `process_execution_response` (285–302). Kind: L -/
theorem Step.executed_source (hs : p.Step v au e p' outs) :
    ∀ x ∈ p'.executed, x ∈ p.executed ∨
      ∀ b ∈ x.2.executedBlocks.getLast?, b.blockInfo ∈ executedInfos [e] := by
  cases hs with
  | push n b => exact fun x hx => .inl (by simpa using hx)
  | @execute r blocks hok =>
    rcases execute_cases p blocks with ⟨-, hex⟩ | ⟨n, o, rest, -, -, hex⟩ <;> rw [hex]
    · exact fun x hx => .inl hx
    · intro x hx
      rcases List.mem_append.mp hx with hx | hx
      · exact .inl hx
      · obtain rfl := List.mem_singleton.mp hx
        exact .inr fun b hb => by simp [executedInfos, hok, show blocks.getLast? = some b from hb]
  | @sign r c x rest sig si vote hp =>
    exact fun y hy => .inl (by simp only [sign_of_cons hp] at hy; simp [hp, hy])
  | @syncAggregate r hrc A B c x hitems hid hver =>
    exact fun y hy => .inl (List.mem_of_mem_drop (by simpa using hy))
  | signNothing | voteNothing | vote | voteAggregate | syncNothing | syncReconfig | tick =>
    exact fun x hx => .inl hx

/-- **The vote of a Signed item after a step** has a source before it: the item's own vote,
kept by every commit vote, or the vote that signed the first Executed item.
Source: `process_signing_response` (305–336); `process_commit_message` (352–363)
Kind: L -/
theorem Step.signed_source (hs : p.Step v au e p' outs) :
    ∀ x ∈ p'.signed, VoteSource p x.2.commitVote := by
  cases hs with
  | push n b => exact fun x hx => .inl ⟨x, by simpa using hx, rfl⟩
  | @execute r blocks hok =>
    rcases execute_cases p blocks with ⟨-, hex⟩ | ⟨n, o, rest, -, -, hex⟩ <;> rw [hex] <;>
      exact fun x hx => .inl ⟨x, hx, rfl⟩
  | @sign r c x rest sig si vote hp he hsig hadv =>
    intro y hy
    rw [sign_of_cons hp] at hy
    rcases List.mem_append.mp hy with hy | hy
    · exact .inl ⟨y, hy, rfl⟩
    · obtain rfl := List.mem_singleton.mp hy
      obtain ⟨-, hvote, -⟩ := ExecutedItem.advanceToSigned_eq_ok hadv
      exact .inr ⟨(c, x), by simp [hp], by
        rw [hvote]; exact ExecutedItem.commitInfo_of_advanceToSigned hadv⟩
  | @vote vote A B c si si' hAB hsi =>
    intro y hy
    rcases List.mem_append.mp hy with hy | hy
    · exact .inl ⟨y, by simp [hAB, hy], rfl⟩
    · rcases List.mem_cons.mp hy with rfl | hy
      · exact .inl ⟨(c, si), by simp [hAB], (BufferItem.withCommitVote_eq_signed hsi).2.symm⟩
      · exact .inl ⟨y, by simp [hAB, hy], rfl⟩
  | @voteAggregate vote A B c si a hAB => exact fun y hy => .inl ⟨y, by simp [hAB, hy], rfl⟩
  | @syncAggregate r hrc A B c x hitems hid hver =>
    exact fun y hy => .inl ⟨y, List.mem_of_mem_drop (by simpa using hy), rfl⟩
  | signNothing | voteNothing | syncNothing | syncReconfig | tick =>
    exact fun x hx => .inl ⟨x, hx, rfl⟩

/-- **Every vote a step broadcasts** has a source before it: the vote made by signing the first
Executed item, or a Signed item's own vote re-broadcast by a tick.
Source: `process_signing_response` (327–330); `retry_broadcasting_commit_votes` (389–394)
Kind: L -/
theorem Step.sentVotes_source (hs : p.Step v au e p' outs) :
    ∀ vote ∈ sentVotes outs, VoteSource p vote := by
  cases hs with
  | @sign r c x rest sig si vote hp he hsig hadv =>
    intro vote' hv
    obtain rfl : vote' = vote := by simpa using hv
    exact .inr ⟨(c, x), by simp [hp], ExecutedItem.commitInfo_of_advanceToSigned hadv⟩
  | tick =>
    intro vote hv
    obtain ⟨y, hy, rfl⟩ : ∃ y ∈ p.signed, y.2.commitVote = vote := by
      simpa [sentVotes, List.filterMap_map, Function.comp_def] using hv
    exact .inl ⟨y, hy, rfl⟩
  | push | execute => split <;> simp
  | signNothing | voteNothing | vote | voteAggregate | syncNothing | syncAggregate
    | syncReconfig => simp

end Pipeline

/-! ## Every vote is for an executed state -/

/-- What the manager was told by its execution phase accounts for every vote it holds or sent:
each Executed item's last executed block, each Signed item's vote and each vote sent commit a
block info an execution response returned.
Source: `process_execution_response`, `process_signing_response`, `process_commit_message`,
`retry_broadcasting_commit_votes`
Kind: D -/
structure OwnVotes (p : Pipeline) (h : List Event) (sent : List Output) : Prop where
  /-- The last executed block of an Executed item was returned by an execution response. -/
  executed_info : ∀ x ∈ p.executed, ∀ b ∈ x.2.executedBlocks.getLast?,
    b.blockInfo ∈ executedInfos h
  /-- A Signed item's vote commits a returned block info. -/
  signed_vote : ∀ x ∈ p.signed, x.2.commitVote.ledgerInfo.commitInfo ∈ executedInfos h
  /-- Every vote sent commits a returned block info. -/
  sent_vote : ∀ vote ∈ sentVotes sent, vote.ledgerInfo.commitInfo ∈ executedInfos h

namespace OwnVotes

variable {v : ValidatorVerifier} {au : Author} {p p' : Pipeline} {h : List Event} {e : Event}
  {sent outs : List Output}

/-- Source: `StateManager::new`. Kind: L -/
theorem init : OwnVotes ⟨[], [], []⟩ [] [] := ⟨by simp, by simp, by simp⟩

/-- A vote with a source in an invariant pipeline commits a returned block info.
Source: none: infrastructure. Kind: L -/
theorem of_source (ho : OwnVotes p h sent) {vote : CommitVote} (hv : VoteSource p vote) :
    vote.ledgerInfo.commitInfo ∈ executedInfos h := by
  rcases hv with ⟨y, hy, rfl⟩ | ⟨y, hy, b, hb, hinfo⟩
  · exact ho.signed_vote y hy
  · rw [hinfo]
    exact ho.executed_info y hy b hb

/-- **Every step keeps the votes on executed states.**
Source: the arms of `start` (411–445)
Kind: L -/
theorem step (ho : OwnVotes p h sent) (hs : p.Step v au e p' outs) :
    OwnVotes p' (h ++ [e]) (sent ++ outs) := by
  refine ⟨fun x hx b hb => ?_, fun x hx => ?_, fun vote hv => ?_⟩ <;>
    rw [executedInfos_append, List.mem_append]
  · exact (hs.executed_source x hx).elim (fun hx => .inl (ho.executed_info x hx b hb))
      (fun hnew => .inr (hnew b hb))
  · exact .inl (ho.of_source (hs.signed_source x hx))
  · rw [sentVotes_append, List.mem_append] at hv
    exact .inl (hv.elim (ho.sent_vote vote) fun hv => ho.of_source (hs.sentVotes_source vote hv))

end OwnVotes

/-- **Every reachable state refines a pipeline that keeps the run invariant and votes only on
executed states.** Source: `start` (405–449). Kind: L -/
theorem Reachable.ownVotes {v : ValidatorVerifier} {s : StateManager} {h : List Event}
    (hr : Reachable v Admissible s h) :
    ∃ p, Refines s p ∧ Invariant p h s.sent ∧ OwnVotes p h s.sent := by
  induction hr with
  | init a => exact ⟨⟨[], [], []⟩, ⟨rfl, rfl, rfl⟩, Invariant.init, OwnVotes.init⟩
  | step _ hend ha hok ih =>
    obtain ⟨p, hr, hi, ho⟩ := ih
    obtain ⟨p', outs, hs, hr', hsent⟩ :=
      StateManager.startIteration_step hr hi.wellFormed (hi.ready ha) hok
    exact ⟨p', hr', hsent ▸ hi.step hs ha, hsent ▸ ho.step hs⟩

/-- **The manager votes only for states it executed**: every commit vote a reachable state has
broadcast, on signing or on a retry tick, commits the block info (block id and executed state)
of the last block an execution response returned.
Source: `process_signing_response` (305–336); `retry_broadcasting_commit_votes` (377–403);
`process_execution_response` (285–302)
Kind: P -/
theorem reachable_votes_executed {v : ValidatorVerifier} {s : StateManager} {h : List Event}
    (hr : Reachable v Admissible s h) :
    ∀ vote ∈ sentVotes s.sent, vote.ledgerInfo.commitInfo ∈ executedInfos h := by
  obtain ⟨p, -, -, ho⟩ := hr.ownVotes
  exact ho.sent_vote

/-- With three batches at three stages, the vote broadcast for the first commits its executed
block. Source: none: witness. Kind: L -/
theorem reachable_votes_executed_threeStages :
    ∃ s, Reachable quorumOfTwo Admissible s threeStages ∧
      (sentVotes s.sent).map (·.ledgerInfo.commitInfo) = [⟨1, 11⟩] ∧
      ∀ vote ∈ sentVotes s.sent, vote.ledgerInfo.commitInfo ∈ executedInfos threeStages := by
  obtain ⟨s, hr, hvotes⟩ := @exists_reachable_of_checkRun quorumOfTwo 0 threeStages
    (fun s => (sentVotes s.sent).map (·.ledgerInfo.commitInfo) = [⟨1, 11⟩]) _ (by decide)
  exact ⟨s, hr, hvotes, reachable_votes_executed hr⟩

/-! ## Requests carry what was received -/

/-- Every item of an invariant pipeline is a pushed batch, in some state.
Source: none: infrastructure. Kind: L -/
theorem Invariant.origin_pushed {p : Pipeline} {h : List Event} {sent : List Output}
    (hi : Invariant p h sent) : ∀ x ∈ p.items, x.2.origin ∈ pushedItems h := by
  obtain ⟨pops, hpush, -, -⟩ := hi.conservation
  intro x hx
  rw [← hpush]
  exact List.mem_map_of_mem _ (List.mem_append_right _ (List.mem_map_of_mem Prod.snd hx))

/-- The execution request of a pipeline carries its first Ordered item's blocks.
Source: `advance_execution_root` (157–163). Kind: L -/
theorem Pipeline.mem_executionRequests {q : Pipeline} {o : Output} (ho : o ∈ q.executionRequests) :
    ∃ x ∈ q.ordered, o = .executionRequest ⟨x.2.orderedBlocks⟩ := by
  simp only [Pipeline.executionRequests, List.mem_map] at ho
  obtain ⟨x, hx, rfl⟩ := ho
  exact ⟨x, List.mem_of_mem_head? (Option.mem_toList.mp hx), rfl⟩

/-- The signing request of a pipeline carries its first Executed item's ordering proof and
commit ledger info. Source: `advance_signing_root` (171–189). Kind: L -/
theorem Pipeline.mem_signingRequests {q : Pipeline} {o : Output} (ho : o ∈ q.signingRequests) :
    ∃ x ∈ q.executed, ∃ li, x.2.commitLedgerInfo = .ok li ∧
      o = .signingRequest ⟨x.2.orderedProof, li⟩ := by
  simp only [Pipeline.signingRequests, List.mem_filterMap, Option.map_eq_some'] at ho
  obtain ⟨x, hx, li, hli, rfl⟩ := ho
  refine ⟨x, List.mem_of_mem_head? (Option.mem_toList.mp hx), li, ?_, rfl⟩
  cases h : x.2.commitLedgerInfo <;> simp_all [Except.toOption]

/-- **Every request carries what the manager was given**: an execution request the blocks of a
batch it received; a signing request the ordering proof of such a batch and a commit ledger info
whose block info the execution phase returned.
Source: `advance_execution_root` (154–164); `advance_signing_root` (168–193)
Kind: P -/
theorem reachable_requests_carry_inputs {v : ValidatorVerifier} {s : StateManager}
    {h : List Event} (hr : Reachable v Admissible s h) :
    (∀ r, .executionRequest r ∈ s.sent → ∃ o ∈ pushedItems h, r.orderedBlocks = o.orderedBlocks) ∧
    (∀ r, .signingRequest r ∈ s.sent → ∃ o ∈ pushedItems h,
      r.orderedLedgerInfo = o.orderedProof ∧ r.commitLedgerInfo.commitInfo ∈ executedInfos h) := by
  induction hr with
  | init a => simp [StateManager.new]
  | step hr' _ ha hok ih =>
    obtain ⟨p, hp, hi, ho⟩ := hr'.ownVotes
    obtain ⟨p', outs, hs, -, hsent⟩ :=
      StateManager.startIteration_step hp hi.wellFormed (hi.ready ha) hok
    have hi' := hi.step hs ha
    have ho' := ho.step hs
    rw [hsent]
    refine ⟨fun r hm => ?_, fun r hm => ?_⟩ <;> rcases List.mem_append.mp hm with hm | hm
    · obtain ⟨o, hmem, hro⟩ := ih.1 r hm
      exact ⟨o, by simp [hmem], hro⟩
    · rcases hs.requests_mem _ hm rfl with hx | hx
      · obtain ⟨x, hxo, hrx⟩ := Pipeline.mem_executionRequests hx
        cases hrx
        exact ⟨x.2, hi'.origin_pushed (x.1, .ordered x.2) (by simp [Pipeline.items, hxo]), rfl⟩
      · obtain ⟨_, -, _, -, hrx⟩ := Pipeline.mem_signingRequests hx
        cases hrx
    · obtain ⟨o, hmem, hro, hinfo⟩ := ih.2 r hm
      exact ⟨o, by simp [hmem], hro, by simp [hinfo]⟩
    · rcases hs.requests_mem _ hm rfl with hx | hx
      · obtain ⟨x, -, hrx⟩ := Pipeline.mem_executionRequests hx
        cases hrx
      · obtain ⟨x, hxe, li, hli, hrx⟩ := Pipeline.mem_signingRequests hx
        cases hrx
        obtain ⟨b, hb, hid⟩ := ExecutedItem.commitInfo_of_commitLedgerInfo hli
        refine ⟨x.2.toOrderedItem,
          hi'.origin_pushed (x.1, .executed x.2) (by simp [Pipeline.items, hxe]), rfl, ?_⟩
        rw [hid]
        exact ho'.executed_info x hxe b hb

/-- With three batches at three stages, three execution requests and two signing requests were
sent. Source: none: witness. Kind: L -/
theorem reachable_requests_carry_inputs_threeStages :
    ∃ s, Reachable quorumOfTwo Admissible s threeStages ∧
      executionRequestIds s.sent = [1, 2, 3] ∧ signingRequestIds s.sent = [1, 2] ∧
      (∀ r, .executionRequest r ∈ s.sent →
        ∃ o ∈ pushedItems threeStages, r.orderedBlocks = o.orderedBlocks) ∧
      (∀ r, .signingRequest r ∈ s.sent → ∃ o ∈ pushedItems threeStages,
        r.orderedLedgerInfo = o.orderedProof ∧
          r.commitLedgerInfo.commitInfo ∈ executedInfos threeStages) := by
  obtain ⟨s, hr, hexec, hsign⟩ := @exists_reachable_of_checkRun quorumOfTwo 0 threeStages
    (fun s => executionRequestIds s.sent = [1, 2, 3] ∧ signingRequestIds s.sent = [1, 2]) _
    (by decide)
  exact ⟨s, hr, hexec, hsign, reachable_requests_carry_inputs hr⟩

end BufferManager
