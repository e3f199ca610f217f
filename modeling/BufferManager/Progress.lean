import BufferManager.Equivocation

/-!
# Answering the requests signs every buffered block

The manager keeps one request open at each phase: the execution request of the first Ordered
item and the signing request of the first Executed item. When both phases answer what they were
asked, the pipeline neither gets stuck nor faults on the way to the vote:

* **`reachable_answers_sign_all`**: from every reachable state before the end of the epoch, there
  is a run of responses, each answering a request the manager sent (the execution phase returns the
  requested blocks, the signing phase signs the requested ledger info), that the loop handles
  without a fault, after which every block of the buffer is Signed with its vote broadcast, and
  the buffer holds the same blocks.

The run is built by recursion on `2 * ordered + executed`: while an Executed item is buffered its
signing request is answered, otherwise the first Ordered item's execution request is
(`Progressing.answer`). Each state carries `Progressing`: reachability, the refinement, the run
invariant, the requests of both roots sent (`Pipeline.RootsRequested`) and the votes of the Signed
items broadcast (`Pipeline.VotesSent`).
-/

namespace BufferManager

/-! ## What the phases are asked, and what has been broadcast -/

namespace Pipeline

variable {v : ValidatorVerifier} {au : Author} {p p' : Pipeline} {e : Event}
  {sent outs : List Output}

/-- The requests of the first Ordered and of the first Executed item have been sent.
Source: `advance_execution_root` (154–164); `advance_signing_root` (168–193)
Kind: D -/
def RootsRequested (p : Pipeline) (sent : List Output) : Prop :=
  ∀ o ∈ p.executionRequests ++ p.signingRequests, o ∈ sent

/-- Every Signed item's own vote has been broadcast.
Source: `process_signing_response` (327–330)
Kind: D -/
def VotesSent (p : Pipeline) (sent : List Output) : Prop :=
  ∀ x ∈ p.signed, x.2.commitVote ∈ sentVotes sent

/-- The execution request is the first Ordered item's. Source: none: infrastructure. Kind: L -/
theorem executionRequests_congr (h : p'.ordered.head? = p.ordered.head?) :
    p'.executionRequests = p.executionRequests := by
  simp only [executionRequests, h]

/-- The signing request is the first Executed item's. Source: none: infrastructure. Kind: L -/
theorem signingRequests_congr (h : p'.executed.head? = p.executed.head?) :
    p'.signingRequests = p.signingRequests := by
  simp only [signingRequests, h]

/-- A step whose roots keep their requests, or send the new ones, keeps the roots requested.
Source: none: infrastructure
Kind: L -/
theorem RootsRequested.of_requests (hreq : p.RootsRequested sent)
    (hexec : p'.executionRequests = p.executionRequests ∨ ∀ o ∈ p'.executionRequests, o ∈ outs)
    (hsign : p'.signingRequests = p.signingRequests ∨ ∀ o ∈ p'.signingRequests, o ∈ outs) :
    p'.RootsRequested (sent ++ outs) := by
  intro o ho
  rcases List.mem_append.mp ho with ho | ho
  · rcases hexec with hexec | hexec
    · exact List.mem_append_left _ (hreq o (List.mem_append_left _ (hexec ▸ ho)))
    · exact List.mem_append_right _ (hexec o ho)
  · rcases hsign with hsign | hsign
    · exact List.mem_append_left _ (hreq o (List.mem_append_right _ (hsign ▸ ho)))
    · exact List.mem_append_right _ (hsign o ho)

/-- **A step keeps the requests of both roots sent**: a root that moves sends its new request in
the step's outputs.
Source: the arms of `start` (411–445)
Kind: L -/
theorem Step.rootsRequested (hs : p.Step v au e p' outs) (hreq : p.RootsRequested sent) :
    p'.RootsRequested (sent ++ outs) := by
  cases hs with
  | push n b =>
    refine hreq.of_requests ?_ (.inl rfl)
    by_cases hord : p.ordered = []
    · exact .inr fun o ho => by simpa [hord] using ho
    · exact .inl (executionRequests_congr (by simp [push, List.head?_append_of_ne_nil _ hord]))
  | @execute r blocks hok =>
    rcases execute_cases p blocks with ⟨-, hex⟩ | ⟨n, o, rest, -, -, hex⟩
    · exact hreq.of_requests (.inl (by rw [hex])) (.inl (by rw [hex]))
    · refine hreq.of_requests (.inr fun o ho => by simp [ho]) ?_
      by_cases hexd : p.executed = []
      · exact .inr fun o ho => by simp [hexd, ho]
      · exact .inl (signingRequests_congr (by simp [hex, List.head?_append_of_ne_nil _ hexd]))
  | @sign r c x rest sig si vote hp he hsig hadv =>
    exact hreq.of_requests (.inl (executionRequests_congr (by simp [sign_of_cons hp])))
      (.inr fun o ho => by simp [ho])
  | syncNothing | syncAggregate =>
    exact hreq.of_requests (.inr fun o ho => by simp [ho]) (.inr fun o ho => by simp [ho])
  | signNothing | vote | voteAggregate | voteNothing | syncReconfig | tick =>
    exact hreq.of_requests (.inl rfl) (.inl rfl)

/-- **A step keeps the votes of its Signed items broadcast**: a signature broadcasts the new vote,
and a commit vote keeps a Signed item's own vote.
Source: `process_signing_response` (327–330); `process_commit_message` (352–363)
Kind: L -/
theorem Step.votesSent (hs : p.Step v au e p' outs) (hv : p.VotesSent sent) :
    p'.VotesSent (sent ++ outs) := by
  intro y hy
  rcases hs.signed_cases y hy with hy | ⟨r, x, rest, sig, vote, -, -, -, hadv, rfl⟩ |
    ⟨vote, si, -, hsi, hvote⟩
  · simp [hv y hy]
  · simp [(ExecutedItem.advanceToSigned_eq_ok hadv).2.1]
  · rw [(BufferItem.withCommitVote_eq_signed hvote).2]
    simp [hv _ hsi]

end Pipeline

/-- An event answers a request of `sent` as a cooperating phase would: an execution response
returns the requested blocks, a signing response signs the requested ledger info with `sig`.
Source: `execution_phase` and `signing_phase` as `buffer_manager.rs` talks to them; spec §6
Kind: D -/
def Answers (sig : Signature) (sent : List Output) (e : Event) : Prop :=
  (∃ r q, e = .executionResponse r ∧ .executionRequest q ∈ sent ∧ r.inner = .ok q.orderedBlocks) ∨
    ∃ r q, e = .signingResponse r ∧ .signingRequest q ∈ sent ∧ r.signatureResult = .ok sig ∧
      r.commitLedgerInfo = q.commitLedgerInfo

/-- An answer stays one as more is sent. Source: none: infrastructure. Kind: L -/
theorem Answers.mono {sig : Signature} {sent : List Output} {e : Event}
    (ha : Answers sig sent e) (l : List Output) : Answers sig (sent ++ l) e :=
  ha.imp (fun ⟨r, q, he, hq, hr⟩ => ⟨r, q, he, List.mem_append_left _ hq, hr⟩)
    fun ⟨r, q, he, hq, hr⟩ => ⟨r, q, he, List.mem_append_left _ hq, hr⟩

/-! ## One answered request -/

/-- What the progress argument carries from state to state.
Source: none: infrastructure
Kind: D -/
structure Progressing (v : ValidatorVerifier) (s : StateManager) (h : List Event)
    (p : Pipeline) : Prop where
  /-- The state is reachable. -/
  reachable : Reachable v Admissible s h
  /-- It refines `p`. -/
  refines : Refines s p
  /-- The run invariant. -/
  invariant : Invariant p h s.sent
  /-- The roots' requests are out. -/
  rootsRequested : p.RootsRequested s.sent
  /-- The Signed items' votes are out. -/
  votesSent : p.VotesSent s.sent

namespace Progressing

variable {v : ValidatorVerifier} {s s' : StateManager} {h : List Event} {p : Pipeline}
  {e : Event}

/-- One admissible turn whose pipeline step and refinement are known keeps the bundle.
Source: `start` (405–449)
Kind: L -/
theorem step (hp : Progressing v s h p) (hend : s.endEpoch = false) (ha : Admissible s.sent h e)
    (hok : s.startIteration v e = .ok s') {p' : Pipeline} {outs : List Output}
    (hs : p.Step v s.author e p' outs) (hr' : Refines s' p') (hsent : s'.sent = s.sent ++ outs) :
    Progressing v s' (h ++ [e]) p' :=
  ⟨hp.reachable.step hend ha hok, hr', hsent ▸ hp.invariant.step hs ha,
    hsent ▸ hs.rootsRequested hp.rootsRequested, hsent ▸ hs.votesSent hp.votesSent⟩

/-- One admissible turn: a step of the pipeline, after which the bundle holds again.
Source: `start` (405–449)
Kind: L -/
theorem turn (hp : Progressing v s h p) (hend : s.endEpoch = false) (ha : Admissible s.sent h e)
    (hok : s.startIteration v e = .ok s') :
    ∃ p' outs, p.Step v s.author e p' outs ∧ s'.sent = s.sent ++ outs ∧
      Progressing v s' (h ++ [e]) p' := by
  obtain ⟨p', outs, hs, hr', hsent⟩ :=
    StateManager.startIteration_step hp.refines hp.invariant.wellFormed (hp.invariant.ready ha) hok
  exact ⟨p', outs, hs, hsent, hp.step hend ha hok hs hr' hsent⟩

/-- Along a checked run the manager's log only grows.
Source: `start` (405–449)
Kind: L -/
theorem sent_of_checkRun (hp : Progressing v s h p) {es : List Event}
    (hc : checkRun v s h es = some s') : ∃ l, s'.sent = s.sent ++ l := by
  induction es generalizing s h p with
  | nil =>
    cases hc
    exact ⟨[], by simp⟩
  | cons e es ih =>
    obtain ⟨s1, hend, ha, hok, hc⟩ := checkRun_cons_eq_some hc
    obtain ⟨p1, outs, -, hsent1, hp1⟩ := hp.turn hend ha hok
    obtain ⟨l, hsent⟩ := ih hp1 hc
    exact ⟨outs ++ l, by rw [hsent, hsent1, List.append_assoc]⟩

/-- **Answering the first Executed item's signing request signs it**, and the turn neither faults
nor ends the epoch.
Source: `process_signing_response` (305–336); `start` (434–437)
Kind: L -/
theorem sign_head (hp : Progressing v s h p) (hend : s.endEpoch = false) {c : Nat}
    {x : ExecutedItem} {rest : List (Nat × ExecutedItem)} (hx : p.executed = (c, x) :: rest)
    (sig : Signature) :
    ∃ e s' si, Answers sig s.sent e ∧ Admissible s.sent h e ∧ s.startIteration v e = .ok s' ∧
      s'.endEpoch = false ∧ Progressing v s' (h ++ [e]) (p.sign si) ∧ x.blockId = si.blockId := by
  have hw := hp.invariant.wellFormed
  obtain ⟨b, hb, hbid⟩ : ∃ b, x.executedBlocks.getLast? = some b ∧ b.id = x.blockId := by
    simpa using hw.executed_last (c, x) (by simp [hx])
  have hq : Output.signingRequest ⟨x.orderedProof,
      ⟨b.blockInfo, x.orderedProof.ledgerInfo.consensusDataHash⟩⟩ ∈ s.sent :=
    hp.rootsRequested _ (by
      simp [Pipeline.signingRequests, hx, ExecutedItem.commitLedgerInfo_of_getLast? hb,
        Except.toOption])
  obtain ⟨r, hsig, hli⟩ : ∃ r : SigningResponse, r.signatureResult = .ok sig ∧
      r.commitLedgerInfo = ⟨b.blockInfo, x.orderedProof.ledgerInfo.consensusDataHash⟩ :=
    ⟨⟨.ok sig, _⟩, rfl, rfl⟩
  have hid : r.commitLedgerInfo.commitInfo.id = x.blockId := by rw [hli]; exact hbid
  have ha : Admissible s.sent h (.signingResponse r) :=
    List.mem_filterMap.mpr ⟨_, hq, by simp [hli]⟩
  obtain ⟨s', hok⟩ : ∃ s', s.startIteration v (.signingResponse r) = .ok s' := by
    have hready := hp.invariant.ready ha
    rcases StateManager.startIteration_signingResponse (v := v) hp.refines hw hready.1 hready.2
      with ⟨-, s', hok, -⟩ | ⟨-, -, -, -, -, -, -, -, -, -, s', hok, -⟩ <;> exact ⟨s', hok⟩
  obtain ⟨p', outs, hs, -, hprog⟩ := hp.turn hend ha hok
  cases hs with
  | signNothing hno => exact absurd hid.symm (hno c x rest sig hx hsig)
  | @sign _ c' x' rest' sig' si vote hp' he hsig' hadv =>
    obtain ⟨⟨rfl, rfl⟩, rfl⟩ : (c, x) = (c', x') ∧ rest = rest' := by
      simpa using hx.symm.trans hp'
    exact ⟨_, s', si, .inr ⟨r, _, rfl, hq, hsig, hli⟩, ha, hok,
      (StateManager.startIteration_signingResponse_endEpoch hok).trans hend, hprog,
      (Pipeline.blockId_of_advanceToSigned hadv).symm⟩

/-- **Answering the first Ordered item's execution request, with no Executed item, executes it**,
and the turn neither faults nor ends the epoch.
Source: `process_execution_response` (285–302); `start` (427–433)
Kind: L -/
theorem execute_head (hp : Progressing v s h p) (hend : s.endEpoch = false)
    (hnil : p.executed = []) {c : Nat} {o : OrderedItem} {rest : List (Nat × OrderedItem)}
    (ho : p.ordered = (c, o) :: rest) (sig : Signature) :
    ∃ e s', Answers sig s.sent e ∧ Admissible s.sent h e ∧ s.startIteration v e = .ok s' ∧
      s'.endEpoch = false ∧ Progressing v s' (h ++ [e])
        { p with executed := [(c, o.advanceToExecuted o.orderedBlocks)], ordered := rest } := by
  have hq : Output.executionRequest ⟨o.orderedBlocks⟩ ∈ s.sent :=
    hp.rootsRequested _ (by simp [Pipeline.executionRequests, ho])
  have hlast : o.orderedBlocks.getLast?.map (·.id) = some o.blockId := by
    simp [OrderedItem.blockId, List.getLast?_eq_getLast _ o.orderedBlocks_ne_nil]
  obtain ⟨r, hin⟩ : ∃ r : ExecutionResponse, r.inner = .ok o.orderedBlocks := ⟨⟨.ok _⟩, rfl⟩
  have ha : Admissible s.sent h (.executionResponse r) :=
    ⟨o.blockId, List.mem_filterMap.mpr ⟨_, hq, hlast⟩, by simp [hin, hlast]⟩
  obtain ⟨s', hok⟩ : ∃ s', s.startIteration v (.executionResponse r) = .ok s' := by
    obtain ⟨b, hb, htail⟩ := hp.invariant.ready ha _ hin
    obtain ⟨s', hok, -⟩ := StateManager.startIteration_executionResponse (v := v) hp.refines hin hb htail
    exact ⟨s', hok⟩
  obtain ⟨p', outs, hs, -, hprog⟩ := hp.turn hend ha hok
  cases hs with
  | @execute _ blocks hok' =>
    obtain rfl : blocks = o.orderedBlocks := Except.ok.inj (hok'.symm.trans hin)
    rcases Pipeline.execute_cases p o.orderedBlocks with ⟨hno, -⟩ | ⟨n, o', rest', ho', -, hex⟩
    · exact absurd hlast (hno c o rest ho)
    · obtain ⟨⟨rfl, rfl⟩, rfl⟩ : (c, o) = (n, o') ∧ rest = rest' := by simpa using ho.symm.trans ho'
      rw [hex, hnil, List.nil_append] at hprog
      exact ⟨_, s', .inl ⟨r, _, rfl, hq, hin⟩, ha, hok,
        (StateManager.startIteration_executionResponse_endEpoch hok).trans hend, hprog⟩

/-- **While an item is not yet Signed, some answered request moves it on**, keeping the buffer's
blocks and lowering `2 * ordered + executed`.
Source: `start` (427–437)
Kind: L -/
theorem answer (hp : Progressing v s h p) (hend : s.endEpoch = false)
    (hpending : p.executed ≠ [] ∨ p.ordered ≠ []) (sig : Signature) :
    ∃ e s' p', Answers sig s.sent e ∧ Admissible s.sent h e ∧ s.startIteration v e = .ok s' ∧
      s'.endEpoch = false ∧ Progressing v s' (h ++ [e]) p' ∧ p'.ids = p.ids ∧
      2 * p'.ordered.length + p'.executed.length < 2 * p.ordered.length + p.executed.length := by
  rcases hex : p.executed with _ | ⟨⟨c, x⟩, rest⟩
  · obtain ⟨⟨c, o⟩, rest, ho⟩ := List.exists_cons_of_ne_nil (hpending.resolve_left (by simp [hex]))
    obtain ⟨e, s', hans, ha, hok, hend', hprog⟩ := hp.execute_head hend hex ho sig
    refine ⟨e, s', _, hans, ha, hok, hend', hprog, ?_, by simp [ho, hex]; omega⟩
    simp [Pipeline.ids_eq, Pipeline.executedIds, Pipeline.orderedIds, ho, hex]
  · obtain ⟨e, s', si, hans, ha, hok, hend', hprog, hid⟩ := hp.sign_head hend hex sig
    refine ⟨e, s', _, hans, ha, hok, hend', hprog, ?_, by simp [Pipeline.sign_of_cons hex]⟩
    simp [Pipeline.ids_eq, Pipeline.executedIds, Pipeline.orderedIds, Pipeline.sign_of_cons hex,
      hex, hid]

/-- **Answering requests until none is left signs every item**: each answered turn lowers
`2 * ordered + executed`.
Source: `start` (405–449)
Kind: L -/
theorem signs_all (sig : Signature) {s : StateManager} {h : List Event} {p : Pipeline}
    (hp : Progressing v s h p) (hend : s.endEpoch = false) :
    ∃ es s' p', checkRun v s h es = some s' ∧ (∀ e ∈ es, Answers sig s'.sent e) ∧
      s'.endEpoch = false ∧ Progressing v s' (h ++ es) p' ∧ p'.ids = p.ids ∧ p'.executed = [] ∧
      p'.ordered = [] := by
  by_cases hpending : p.executed ≠ [] ∨ p.ordered ≠ []
  · obtain ⟨e, s1, p1, hans, ha, hok, hend1, hp1, hids1, hlt⟩ := hp.answer hend hpending sig
    obtain ⟨es, s', p', hc, hans', hend', hp', hids, hE, hO⟩ := signs_all sig hp1 hend1
    have hc' : checkRun v s h (e :: es) = some s' := by rw [checkRun_cons_of_ok es hend ha hok, hc]
    obtain ⟨l, hsent⟩ := hp.sent_of_checkRun hc'
    refine ⟨e :: es, s', p', hc', ?_, hend', by simpa using hp', hids.trans hids1, hE, hO⟩
    rintro e' (_ | ⟨_, he'⟩)
    · exact hsent ▸ hans.mono l
    · exact hans' e' he'
  · push_neg at hpending
    exact ⟨[], s, p, rfl, by simp, hend, by simpa using hp, rfl, hpending⟩
termination_by 2 * p.ordered.length + p.executed.length

end Progressing

/-! ## From every reachable state -/

section Runs

variable {v : ValidatorVerifier} {s : StateManager} {h : List Event}

/-- Every reachable state carries the progress bundle.
Source: `start` (405–449)
Kind: L -/
theorem Reachable.progressing (hr : Reachable v Admissible s h) : ∃ p, Progressing v s h p := by
  induction hr with
  | init a =>
    exact ⟨⟨[], [], []⟩, .init a, ⟨rfl, rfl, rfl⟩, Invariant.init,
      fun o ho => by simp [Pipeline.executionRequests, Pipeline.signingRequests] at ho,
      fun x hx => by simp at hx⟩
  | step _ hend ha hok ih =>
    obtain ⟨p, hp⟩ := ih
    obtain ⟨p', -, -, -, hp'⟩ := hp.turn hend ha hok
    exact ⟨p', hp'⟩

/-- **Answering the requests signs every buffered block**: from every reachable state before the
end of the epoch, some run of responses, each answering a request the manager sent (the execution
phase returns the requested blocks, the signing phase signs the requested ledger info with `sig`),
is handled without a fault; after it the buffer holds the same blocks, and every slot is Signed
with its vote broadcast.
Source: `process_execution_response` (285–302); `process_signing_response` (305–336);
`advance_execution_root` (154–164); `advance_signing_root` (168–193); `start` (405–449)
Kind: P -/
theorem reachable_answers_sign_all (hr : Reachable v Admissible s h) (hend : s.endEpoch = false)
    (sig : Signature) :
    ∃ es s', checkRun v s h es = some s' ∧ (∀ e ∈ es, Answers sig s'.sent e) ∧
      (s'.buffer.slots.filterMap Slot.elem).map BufferItem.blockId =
        (s.buffer.slots.filterMap Slot.elem).map BufferItem.blockId ∧
      ∀ sl ∈ s'.buffer.slots, ∃ si, sl.elem = some (.signed si) ∧
        si.commitVote ∈ sentVotes s'.sent := by
  obtain ⟨p, hp⟩ := hr.progressing
  obtain ⟨es, s', p', hc, hans, -, hp', hids, hE, hO⟩ := hp.signs_all sig hend
  refine ⟨es, s', hc, hans, by rw [hp'.refines.blockIds, hp.refines.blockIds, hids],
    fun sl hsl => ?_⟩
  rw [hp'.refines.slots] at hsl
  obtain ⟨⟨n, x⟩, hx, rfl⟩ := List.mem_map.mp hsl
  simp only [Pipeline.items, hE, hO, List.map_nil, List.append_nil, List.mem_map, Prod.map,
    Prod.mk.injEq, id] at hx
  obtain ⟨⟨n', si⟩, hsi, rfl, rfl⟩ := hx
  exact ⟨si, rfl, hp'.votesSent _ hsi⟩

/-- A batch pushed and not yet executed: answering its requests signs it.
Source: none: witness
Kind: L -/
theorem reachable_answers_sign_all_batch :
    ∃ s, Reachable quorumOfTwo Admissible s [.orderedBlocks (batch 1)] ∧ s.endEpoch = false ∧
      s.buffer.slots.length = 1 ∧
      ∃ es s', checkRun quorumOfTwo s [.orderedBlocks (batch 1)] es = some s' ∧
        (∀ e ∈ es, Answers 7 s'.sent e) ∧
        (s'.buffer.slots.filterMap Slot.elem).map BufferItem.blockId =
          (s.buffer.slots.filterMap Slot.elem).map BufferItem.blockId ∧
        ∀ sl ∈ s'.buffer.slots, ∃ si, sl.elem = some (.signed si) ∧
          si.commitVote ∈ sentVotes s'.sent := by
  obtain ⟨s, hr, hend, hlen⟩ := @exists_reachable_of_checkRun quorumOfTwo 0
    [.orderedBlocks (batch 1)] (fun s => s.endEpoch = false ∧ s.buffer.slots.length = 1) _
    (by decide)
  exact ⟨s, hr, hend, hlen, reachable_answers_sign_all hr hend 7⟩

end Runs

end BufferManager
