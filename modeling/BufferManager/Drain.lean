import BufferManager.Progress

/-!
# A quorum's votes drain the buffer

Once every buffered block is Signed (`Progressing.signs_all`), what is left to the environment is
the commit votes of the other validators. A vote is handled by `process_commit_message`, which
adds the vote's signature to the item of its block; when the signatures reach the quorum the item
is Aggregated and `advance_head` persists the buffer through it.

* **`reachable_quorum_persists_all`**: from every reachable state before the end of the epoch,
  when the execution and signing phases answer the manager's requests and the validators of a
  quorum `q` (every author list that contains `q` has the voting power) vote with signatures that
  verify, on the ledger infos of the votes the manager broadcast, some run of these events is
  handled without a fault and leaves the buffer empty, with every block the manager was ever given
  persisted, in order.

Route: `Progressing.vote` says where one vote lands (on the item of its block, which is unique);
`Progressing.collect` delivers the votes of `q` to one Signed item until it is Aggregated and
popped, at the latest once all of `q` have signed; `Progressing.drain` repeats that on the first
buffered item until none is left.
-/

namespace BufferManager

/-- The commit vote of validator `a` on ledger info `li`, signed with `signer a li`, as it reaches
the manager.
Source: `VerifiedEvent::CommitVote`, received by `process_commit_message` (341–375)
Kind: D -/
def voteOf (signer : Author → LedgerInfo → Signature) (a : Author) (li : LedgerInfo) : Event :=
  .commitMessage (.commitVote ⟨a, li, signer a li⟩)

namespace Progressing

variable {v : ValidatorVerifier} {signer : Author → LedgerInfo → Signature}

/-! ## One vote -/

/-- **A verified vote on a buffered Signed item's ledger info lands on that item**: it adds the
vote's author to the item's signatures, and the item stays Signed without a quorum, or is
Aggregated and popped with every item before it.
Source: `process_commit_message` (341–375); `advance_head` (197–232); `start` (438–442)
Kind: L -/
theorem vote {s : StateManager} {h : List Event} {p : Pipeline} (hp : Progressing v s h p)
    (hend : s.endEpoch = false) {A B : List (Nat × SignedItem)} {c : Nat} {si : SignedItem}
    (hsi : p.signed = A ++ (c, si) :: B) {a : Author}
    (hver : v.verify a si.commitVote.ledgerInfo (signer a si.commitVote.ledgerInfo) = true) :
    ∃ s', s.startIteration v (voteOf signer a si.commitVote.ledgerInfo) = .ok s' ∧
      s'.endEpoch = false ∧
      ((∃ A' B' si', p.signed = A' ++ (c, si) :: B' ∧
          v.checkVotingPower (si'.signatures.map Prod.fst) = false ∧
          si'.commitVote = si.commitVote ∧
          (∀ b, b ∈ si'.signatures.map Prod.fst ↔ b = a ∨ b ∈ si.signatures.map Prod.fst) ∧
          Progressing v s' (h ++ [voteOf signer a si.commitVote.ledgerInfo])
            { p with signed := A' ++ (c, si') :: B' }) ∨
        ∃ B', B'.length < p.signed.length ∧
          Progressing v s' (h ++ [voteOf signer a si.commitVote.ledgerInfo])
            { p with signed := B' }) := by
  set cv : CommitVote := ⟨a, si.commitVote.ledgerInfo, signer a si.commitVote.ledgerInfo⟩
  have hw := hp.invariant.wellFormed
  have hmem : (c, si) ∈ p.signed := by simp [hsi]
  have hid : si.blockId = cv.commitInfo.id := (hw.signed_commit _ hmem).symm
  have ha : Admissible s.sent h (.commitMessage (.commitVote cv)) := by simp [Admissible]
  have hsame {c' : Nat} {si0 : SignedItem} (h0 : (c', si0) ∈ p.signed)
      (hid0 : si0.blockId = cv.commitInfo.id) : c' = c ∧ si0 = si := by
    simpa using hw.eq_of_blockId_eq (Pipeline.mem_items_of_mem_signed hmem)
      (Pipeline.mem_items_of_mem_signed h0) (by simp [hid0, hid])
  obtain ⟨s', hok, hcases⟩ := StateManager.startIteration_commitVote (v := v) hp.refines hw cv
  refine ⟨s', hok, (StateManager.startIteration_commitMessage_endEpoch hok).trans hend, ?_⟩
  rcases hcases with ⟨hno, -, -⟩ | ⟨A', c', si0, B', si', hAB, hid0, hsi', hr', hsent⟩ |
    ⟨A', c', si0, B', ag, hAB, hid0, hag, hr', hsent⟩
  · exact absurd hid (hno _ hmem)
  · obtain ⟨rfl, rfl⟩ := hsame (show (c', si0) ∈ p.signed by simp [hAB]) hid0
    have hins := (@BufferItem.withCommitVote_of_matched v cv si0 rfl hver).symm.trans hsi'
    simp only [BufferItem.tryAdvanceToAggregated] at hins
    split_ifs at hins with hpow
    cases hins
    have hp1 := hp.step hend ha hok (.vote p cv hAB hsi') hr' (by simpa using hsent)
    exact .inl ⟨A', B', _, hAB, by simpa using hpow, by rfl,
      fun b => by exact mem_insertSignature_authors, hp1⟩
  · obtain ⟨rfl, rfl⟩ := hsame (show (c', si0) ∈ p.signed by simp [hAB]) hid0
    exact .inr ⟨B', by simp only [hAB, List.length_append, List.length_cons]; omega,
      hp.step hend ha hok (.voteAggregate p cv hAB hag) hr' hsent⟩

/-! ## The votes of a quorum -/

/-- **The votes of `a :: rest` aggregate a buffered Signed item**: delivered one by one, each adds
its author, so the signatures reach the quorum (`hpower`) once every voter has voted at the
latest; the item is then Aggregated and popped, and the buffer is shorter.
Source: `process_commit_message` (341–375); `advance_head` (197–232)
Kind: L -/
theorem collect (a : Author) (rest : List Author) {s : StateManager} {h : List Event}
    {p : Pipeline} (hp : Progressing v s h p) (hend : s.endEpoch = false)
    {A B : List (Nat × SignedItem)} {c : Nat} {si : SignedItem} (hsi : p.signed = A ++ (c, si) :: B)
    (hverify : ∀ b ∈ a :: rest,
      v.verify b si.commitVote.ledgerInfo (signer b si.commitVote.ledgerInfo) = true)
    (hpower : ∀ authors : List Author, (∀ b ∈ a :: rest, b ∈ authors) →
      (∀ b ∈ si.signatures.map Prod.fst, b ∈ authors) → v.checkVotingPower authors = true) :
    ∃ es s' p', checkRun v s h es = some s' ∧
      (∀ e ∈ es, ∃ b ∈ a :: rest, e = voteOf signer b si.commitVote.ledgerInfo) ∧
      s'.endEpoch = false ∧ Progressing v s' (h ++ es) p' ∧ p'.executed = p.executed ∧
      p'.ordered = p.ordered ∧ p'.signed.length < p.signed.length := by
  have ha : Admissible s.sent h (voteOf signer a si.commitVote.ledgerInfo) := by
    simp [Admissible, voteOf]
  obtain ⟨s1, hok, hend1, hcase⟩ := hp.vote hend hsi (hverify a (by simp))
  rcases hcase with ⟨A', B', si', hAB, hpow, hcv, hauth, hp1⟩ | ⟨B', hlt, hp1⟩
  · match rest with
    | [] =>
      have := hpower _ (by simp [hauth]) fun b hb => (hauth b).mpr (.inr hb)
      simp [this] at hpow
    | b :: rest =>
      obtain ⟨es, s', p', hc, hes, hend', hp', hE, hO, hlt⟩ :=
        collect b rest hp1 hend1 rfl (by rw [hcv]; exact fun b' hb' => hverify b' (by simp [hb']))
          fun authors h1 h2 => hpower authors
            (fun b' hb' => (List.mem_cons.mp hb').elim (fun h => h ▸ h2 a ((hauth a).mpr (.inl rfl)))
              (h1 b'))
            fun b' hb' => h2 b' ((hauth b').mpr (.inr hb'))
      refine ⟨_ :: es, s', p', by rw [checkRun_cons_of_ok es hend ha hok, hc], ?_, hend',
        by simpa using hp', hE, hO, by simpa [hAB] using hlt⟩
      rintro e (_ | ⟨_, he⟩)
      · exact ⟨a, by simp, rfl⟩
      · obtain ⟨b', hb', rfl⟩ := hes e he
        exact ⟨b', List.mem_cons_of_mem _ hb', by rw [hcv]⟩
  · exact ⟨[_], s1, _, by rw [checkRun_cons_of_ok [] hend ha hok]; rfl, by simp, hend1, hp1, rfl,
      rfl, hlt⟩
termination_by rest.length

/-! ## The buffer drained -/

/-- **A quorum's votes drain a buffer of Signed items**: the votes of `q` aggregate the first
item, and the rest is drained the same way.
Source: `process_commit_message` (341–375); `advance_head` (197–232); `start` (438–442)
Kind: L -/
theorem drain (q : List Author) (hq : q ≠ [])
    (hverify : ∀ a ∈ q, ∀ li, v.verify a li (signer a li) = true)
    (hquorum : ∀ authors : List Author, (∀ a ∈ q, a ∈ authors) → v.checkVotingPower authors = true)
    {s : StateManager} {h : List Event} {p : Pipeline} (hp : Progressing v s h p)
    (hend : s.endEpoch = false) (hE : p.executed = []) (hO : p.ordered = []) :
    ∃ es s' p', checkRun v s h es = some s' ∧
      (∀ e ∈ es, ∃ a ∈ q, ∃ vote ∈ sentVotes s'.sent, e = voteOf signer a vote.ledgerInfo) ∧
      Progressing v s' (h ++ es) p' ∧ p'.items = [] := by
  rcases hsig : p.signed with _ | ⟨⟨c, si⟩, rest⟩
  · exact ⟨[], s, p, rfl, by simp, by simpa using hp, by simp [Pipeline.items, hsig, hE, hO]⟩
  · obtain ⟨a, q', rfl⟩ := List.exists_cons_of_ne_nil hq
    obtain ⟨es1, s1, p1, hc1, hes1, hend1, hp1, hE1, hO1, hlt⟩ :=
      hp.collect a q' hend (A := []) (by rw [hsig]; rfl) (fun b hb => hverify b hb _)
        fun authors h1 _ => hquorum authors h1
    obtain ⟨es2, s', p', hc2, hes2, hp', hitems⟩ :=
      drain (a :: q') hq hverify hquorum hp1 hend1 (hE1.trans hE) (hO1.trans hO)
    have hc : checkRun v s h (es1 ++ es2) = some s' := by
      rw [checkRun_append_of_eq_some es2 hc1, hc2]
    obtain ⟨l, hsent⟩ := hp.sent_of_checkRun hc
    have hvote : si.commitVote ∈ sentVotes s'.sent := by
      simp [hsent, hp.votesSent (c, si) (by simp [hsig])]
    refine ⟨es1 ++ es2, s', p', hc, ?_, by simpa using hp', hitems⟩
    intro e he
    rcases List.mem_append.mp he with he | he
    · obtain ⟨b, hb, rfl⟩ := hes1 e he
      exact ⟨b, hb, si.commitVote, hvote, rfl⟩
    · exact hes2 e he
termination_by p.signed.length

end Progressing

/-! ## From every reachable state -/

section Runs

variable {v : ValidatorVerifier} {s : StateManager} {h : List Event}
  {signer : Author → LedgerInfo → Signature}

/-- **With the phases answering and a quorum voting, every block is persisted**: from every
reachable state before the end of the epoch, some run of events, each an answer to a request the
manager sent or a vote of a validator of `q` on the ledger info of a vote the manager broadcast, is
handled without a fault; after it the buffer is empty and the persisting requests carry, in order,
the blocks of every batch the manager was given.
Source: `process_execution_response` (285–302); `process_signing_response` (305–336);
`process_commit_message` (341–375); `advance_head` (197–232); `start` (405–449)
Kind: P -/
theorem reachable_quorum_persists_all (hr : Reachable v Admissible s h)
    (hend : s.endEpoch = false) (sig : Signature) (q : List Author) (hq : q ≠ [])
    (hverify : ∀ a ∈ q, ∀ li, v.verify a li (signer a li) = true)
    (hquorum : ∀ authors : List Author, (∀ a ∈ q, a ∈ authors) →
      v.checkVotingPower authors = true) :
    ∃ es s', checkRun v s h es = some s' ∧
      (∀ e ∈ es, Answers sig s'.sent e ∨
        ∃ a ∈ q, ∃ vote ∈ sentVotes s'.sent, e = voteOf signer a vote.ledgerInfo) ∧
      s'.buffer.slots = [] ∧
      (persistingRequests s'.sent).flatMap PersistingRequest.blocks =
        (pushedItems h).flatMap OrderedItem.orderedBlocks := by
  obtain ⟨p, hp⟩ := hr.progressing
  obtain ⟨es1, s1, p1, hc1, hans, hend1, hp1, -, hE, hO⟩ := hp.signs_all sig hend
  obtain ⟨es2, s', p', hc2, hvotes, hp', hitems⟩ := hp1.drain q hq hverify hquorum hend1 hE hO
  obtain ⟨l2, hsent2⟩ := hp1.sent_of_checkRun hc2
  have hpushed : pushedItems (es1 ++ es2) = [] := by
    simp only [pushedItems, List.filterMap_eq_nil_iff, List.mem_append]
    rintro e (he | he)
    · rcases hans e he with ⟨r, -, rfl, -⟩ | ⟨r, -, rfl, -⟩ <;> rfl
    · obtain ⟨a, -, -, -, rfl⟩ := hvotes e he
      rfl
  obtain ⟨pops, hpops, hreq, -⟩ := hp'.invariant.conservation
  rw [hitems, List.map_nil, List.append_nil, List.append_assoc, pushedItems_append, hpushed,
    List.append_nil] at hpops
  refine ⟨es1 ++ es2, s', by rw [checkRun_append_of_eq_some es2 hc1, hc2], ?_,
    by rw [hp'.refines.slots, hitems]; rfl, ?_⟩
  · intro e he
    rcases List.mem_append.mp he with he | he
    · exact .inl (hsent2 ▸ (hans e he).mono l2)
    · exact .inr (hvotes e he)
  · rw [hreq, ← hpops]
    simp [Popped.request, List.flatMap_map, List.flatMap_assoc, Function.comp_def]
    rfl

/-- One batch pushed: answering its requests and the votes of validators `1` and `2` persist it.
Source: none: witness
Kind: L -/
theorem reachable_quorum_persists_all_batch :
    ∃ s, Reachable quorumOfTwo Admissible s [.orderedBlocks (batch 1)] ∧ s.endEpoch = false ∧
      s.buffer.slots.length = 1 ∧ [1, 2] ≠ [] ∧
      (∀ a ∈ [1, 2], ∀ li, quorumOfTwo.verify a li ((fun _ _ => 0) a li) = true) ∧
      (∀ authors : List Author, (∀ a ∈ [1, 2], a ∈ authors) →
        quorumOfTwo.checkVotingPower authors = true) ∧
      ∃ es s', checkRun quorumOfTwo s [.orderedBlocks (batch 1)] es = some s' ∧
        (∀ e ∈ es, Answers 7 s'.sent e ∨
          ∃ a ∈ [1, 2], ∃ vote ∈ sentVotes s'.sent, e = voteOf (fun _ _ => 0) a vote.ledgerInfo) ∧
        s'.buffer.slots = [] ∧
        (persistingRequests s'.sent).flatMap PersistingRequest.blocks =
          (pushedItems [.orderedBlocks (batch 1)]).flatMap OrderedItem.orderedBlocks := by
  obtain ⟨s, hr, hend, hlen⟩ := @exists_reachable_of_checkRun quorumOfTwo 0
    [.orderedBlocks (batch 1)] (fun s => s.endEpoch = false ∧ s.buffer.slots.length = 1) _
    (by decide)
  have hquorum (authors : List Author) (hsub : ∀ a ∈ [1, 2], a ∈ authors) :
      quorumOfTwo.checkVotingPower authors = true := by
    simpa [quorumOfTwo] using (List.subperm_of_subset (by decide) hsub).length_le
  exact ⟨s, hr, hend, hlen, by decide, fun _ _ _ => rfl, hquorum,
    reachable_quorum_persists_all hr hend 7 [1, 2] (by decide) (fun _ _ _ => rfl) hquorum⟩

end Runs

end BufferManager
