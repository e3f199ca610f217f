import BufferManager.Pipeline

/-!
# Each handler is a pipeline operation

The refinement of the abstract model by the faithful one, one lemma per arm of `start`: from a
state that refines a well-formed pipeline `p`, the arm returns (it does not fault) a state that
refines the pipeline of the matching operation, having sent exactly the listed messages.

* `startIteration_orderedBlocks` — `push`; an execution request when the Ordered run was empty.
* `startIteration_executionResponse` — `execute`, or nothing when the response answers no item.
* `startIteration_signingResponse` — `sign`, or nothing for a failed or unmatched response; the
  signing root moves on and asks for its signature either way.
* `startIteration_commitVote` — a vote for a Signed item records it or aggregates the item, and
  then `advance_head` pops the Signed items through it.
* `startIteration_syncRequest`, `startIteration_syncRequest_reconfig` — a sync pops through an
  aggregated item or keeps the buffer; the roots are reset and recomputed from the head.
* `startIteration_tick` — `retry_broadcasting_commit_votes` resends the votes of the Signed run,
  and faults on an Ordered item when no item is Executed.
* **`startIteration_step`** — every turn of the loop that returns is one `Pipeline.Step`.
-/

namespace BufferManager

namespace StateManager

variable {v : ValidatorVerifier} {s : StateManager} {p : Pipeline}

/-- **Ordered blocks** push a new Ordered item; if the Ordered run was empty, the execution root
moves to it and its execution is requested.
Source: `start` (412–417); `process_ordered_blocks`
Kind: L -/
theorem startIteration_orderedBlocks (hr : Refines s p) (b : OrderedBlocks) :
    let o := b.toItem
    s.startIteration v (.orderedBlocks b) = .ok { s with
      buffer := s.buffer.pushBack (.ordered o),
      executionRoot := (p.push s.buffer.nextNode o).executionRoot,
      sent := s.sent ++ if p.ordered = [] then (p.push s.buffer.nextNode o).executionRequests else [] } ∧
    Refines { s with
      buffer := s.buffer.pushBack (.ordered o),
      executionRoot := (p.push s.buffer.nextNode o).executionRoot,
      sent := s.sent ++ if p.ordered = [] then (p.push s.buffer.nextNode o).executionRequests else [] }
      (p.push s.buffer.nextNode o) := by
  intro o
  have hslots : (s.buffer.pushBack (.ordered o)).slots = (p.push s.buffer.nextNode o).items.map Slot.full := by
    simp [Pipeline.items_push, hr.slots, Slot.full]
  rcases hp : p.ordered with _ | ⟨x, rest⟩
  · have hnone : s.executionRoot = none := by simp [hr.executionRoot, Pipeline.executionRoot, hp]
    have := advanceExecutionRoot_eq (s := { s with buffer := s.buffer.pushBack (.ordered o) })
      (p := p.push s.buffer.nextNode o) hslots (by simp [hnone])
    refine ⟨?_, hslots, rfl, hr.signingRoot⟩
    simpa [startIteration, processOrderedBlocks, BufferItem.newOrdered, hnone] using this
  · have hroot : (p.push s.buffer.nextNode o).executionRoot = p.executionRoot := by
      simp [Pipeline.executionRoot, Pipeline.push, hp]
    have hsome : s.executionRoot = some x.1 := by simp [hr.executionRoot, Pipeline.executionRoot, hp]
    refine ⟨?_, hslots, by simp [hroot, hr.executionRoot], hr.signingRoot⟩
    simp [startIteration, processOrderedBlocks, BufferItem.newOrdered, hsome, hroot,
      hr.executionRoot, o, Pipeline.executionRoot, Pipeline.push, hp]

/-- `process_execution_response` on a refined state: the first Ordered item becomes Executed when
the response is its own, and nothing changes otherwise.
Source: `process_execution_response` (285–302)
Kind: L -/
theorem processExecutionResponse_eq (hr : Refines s p) {r : ExecutionResponse}
    {blocks : List ExecutedBlock} (hok : r.inner = .ok blocks) {b : HashValue}
    (hb : blocks.getLast?.map (·.id) = some b) (htail : ∀ x ∈ p.ordered.tail, x.2.blockId ≠ b) :
    ∃ buffer : LinkedList BufferItem, s.processExecutionResponse r = .ok { s with buffer } ∧
      buffer.slots = (p.execute blocks).items.map Slot.full := by
  obtain ⟨last, hlast, rfl⟩ : ∃ last, blocks.getLast? = some last ∧ last.id = b := by
    simpa using hb
  rcases hp : p.ordered with _ | ⟨⟨c, o⟩, rest⟩
  · have hnone : s.executionRoot = none := by simp [hr.executionRoot, Pipeline.executionRoot, hp]
    refine ⟨s.buffer, ?_, by simp [hr.slots, Pipeline.execute, hp]⟩
    conv_lhs => simp [processExecutionResponse, hok, hnone]
  · have hsome : s.executionRoot = some c := by simp [hr.executionRoot, Pipeline.executionRoot, hp]
    have hslots := hr.slots
    rw [Pipeline.items_of_ordered_cons hp] at hslots
    have hfind := LinkedList.findElem_some_of_slots hslots (fun item => item.blockId == last.id)
    by_cases ho : o.blockId = last.id
    · obtain ⟨buf, htake, hbuf, -⟩ := LinkedList.takeElem_of_mem (l := s.buffer) (n := c)
        (x := .ordered o) (by simp [hslots, Slot.full])
      refine ⟨buf.setElem c (.executed (o.advanceToExecuted blocks)), ?_, ?_⟩
      · simp [processExecutionResponse, hok, hsome, hlast, hfind, ho, htake]
      · rw [LinkedList.setElem_slots, hbuf, List.map_map, LinkedList.setAt_comp_setAt, hslots,
          LinkedList.map_setAt_full_of_nodup (LinkedList.nodup_fst_of_slots hslots)]
        simp [Pipeline.execute, Pipeline.items, hp, hlast, ho]
    · have hrest : (rest.map (Prod.map id BufferItem.ordered)).find?
          (fun p => p.2.blockId == last.id) = none := by
        simp only [List.find?_eq_none, beq_iff_eq]
        simp only [List.mem_map, Prod.exists]
        rintro _ ⟨n, o', hmem, rfl⟩
        exact htail (n, o') (by simp [hp, hmem])
      have ho' : ¬ last.id = o.blockId := fun h => ho h.symm
      refine ⟨s.buffer, ?_, by simp [hr.slots, Pipeline.execute, hp, hlast, ho']⟩
      conv_lhs => simp [processExecutionResponse, hok, hsome, hlast, hfind, ho, hrest]

/-- **An execution response** for the first Ordered item (or for an item no longer Ordered)
executes it if it is its own; then the execution root moves to the next Ordered item and, if the
Executed run was empty, the signing root to the new Executed item, each with its request.
Source: `start` (427–433); `process_execution_response`
Kind: L -/
theorem startIteration_executionResponse (hr : Refines s p) {r : ExecutionResponse}
    {blocks : List ExecutedBlock} (hok : r.inner = .ok blocks) {b : HashValue}
    (hb : blocks.getLast?.map (·.id) = some b) (htail : ∀ x ∈ p.ordered.tail, x.2.blockId ≠ b) :
    ∃ s', s.startIteration v (.executionResponse r) = .ok s' ∧ Refines s' (p.execute blocks) ∧
      s'.sent = s.sent ++ (p.execute blocks).executionRequests ++
        (if p.executed = [] then (p.execute blocks).signingRequests else []) := by
  obtain ⟨buffer, hproc, hslots⟩ := processExecutionResponse_eq hr hok hb htail
  have hexec := advanceExecutionRoot_eq (s := { s with buffer }) hslots
    (by simpa [hr.executionRoot] using Pipeline.split_execute p blocks)
  by_cases he : p.executed = []
  · have hnone : s.signingRoot = none := by simp [hr.signingRoot, Pipeline.signingRoot, he]
    have hne : ∀ x ∈ (p.execute blocks).executed.head?, x.2.executedBlocks ≠ [] := by
      rcases Pipeline.execute_cases p blocks with ⟨-, hex⟩ | ⟨n, o, rest, -, -, hex⟩
      · simp [hex, he]
      · simp only [hex, he, List.nil_append, List.head?_cons, Option.mem_def, Option.some.injEq,
          forall_eq', OrderedItem.executedBlocks_advanceToExecuted]
        rintro rfl
        simp at hb
    have hsign := advanceSigningRoot_eq
      (s := { s with buffer := buffer, executionRoot := (p.execute blocks).executionRoot,
                     sent := s.sent ++ (p.execute blocks).executionRequests })
      hslots hne (by simp [hnone])
    have hsn : s.signingRoot.isNone = true := by simp [hnone]
    refine ⟨{ s with
              buffer := buffer
              executionRoot := (p.execute blocks).executionRoot
              signingRoot := (p.execute blocks).signingRoot
              sent := s.sent ++ (p.execute blocks).executionRequests ++
                (p.execute blocks).signingRequests }, ?_, ⟨hslots, rfl, rfl⟩, by simp [he]⟩
    simp only [startIteration, hproc, except_ok_bind, hexec, hsn, if_true, hsign]
  · obtain ⟨y, ys, hy⟩ := List.exists_cons_of_ne_nil he
    have hroot : (p.execute blocks).signingRoot = p.signingRoot := by
      rcases Pipeline.execute_cases p blocks with ⟨-, hex⟩ | ⟨n, o, rest, -, -, hex⟩ <;>
        simp [hex, Pipeline.signingRoot, hy]
    have hsome : s.signingRoot.isNone = false := by
      simp [hr.signingRoot, Pipeline.signingRoot, hy]
    refine ⟨{ s with
              buffer := buffer
              executionRoot := (p.execute blocks).executionRoot
              sent := s.sent ++ (p.execute blocks).executionRequests }, ?_,
      ⟨hslots, rfl, by simp [hroot, hr.signingRoot]⟩, by simp [he]⟩
    simp only [startIteration, hproc, except_ok_bind, hexec, hsome, Bool.false_eq_true, if_false,
      except_pure_eq_ok]

/-- `process_signing_response` on a refined state: a successful response for the first Executed
item signs it and broadcasts the vote; any other response changes nothing.
Source: `process_signing_response` (305–336)
Kind: L -/
theorem processSigningResponse_eq (hr : Refines s p) (hw : p.WellFormed) {r : SigningResponse}
    (htail : ∀ x ∈ p.executed.tail, x.2.blockId ≠ r.commitLedgerInfo.commitInfo.id)
    (hord : ∀ x ∈ p.ordered, x.2.blockId ≠ r.commitLedgerInfo.commitInfo.id) :
    ((∀ c e rest signature, p.executed = (c, e) :: rest → r.signatureResult = .ok signature →
        e.blockId ≠ r.commitLedgerInfo.commitInfo.id) ∧
      s.processSigningResponse r = .ok s) ∨
    ∃ c e rest signature si vote, p.executed = (c, e) :: rest ∧
      e.blockId = r.commitLedgerInfo.commitInfo.id ∧ r.signatureResult = .ok signature ∧
      e.advanceToSigned s.author signature = .ok (si, vote) ∧
      ∃ buffer : LinkedList BufferItem,
        s.processSigningResponse r = .ok ({ s with buffer }.send (.commitVote vote)) ∧
        buffer.slots = (p.sign si).items.map Slot.full := by
  rcases hsig : r.signatureResult with err | signature
  · exact .inl ⟨fun _ _ _ _ _ h => by simp at h, by simp [processSigningResponse, hsig]⟩
  rcases hp : p.executed with _ | ⟨⟨c, e⟩, rest⟩
  · have hnone : s.signingRoot = none := by simp [hr.signingRoot, Pipeline.signingRoot, hp]
    refine .inl ⟨fun _ _ _ _ h => by simp at h, ?_⟩
    conv_lhs => simp [processSigningResponse, hsig, hnone, LinkedList.findElem]
  have hsome : s.signingRoot = some c := by simp [hr.signingRoot, Pipeline.signingRoot, hp]
  have hslots := hr.slots
  rw [Pipeline.items_of_executed_cons hp] at hslots
  have hfind := LinkedList.findElem_some_of_slots hslots
    (fun item => item.blockId == r.commitLedgerInfo.commitInfo.id)
  by_cases he : e.blockId = r.commitLedgerInfo.commitInfo.id
  · obtain ⟨b, hb, -⟩ : ∃ b, e.executedBlocks.getLast? = some b ∧ b.id = e.blockId := by
      simpa using hw.executed_last (c, e) (by simp [hp])
    obtain ⟨⟨si, vote⟩, hsign⟩ : ∃ r, e.advanceToSigned s.author signature = .ok r :=
      ⟨_, ExecutedItem.advanceToSigned_of_getLast? hb s.author signature⟩
    obtain ⟨buf, htake, hbuf, -⟩ := LinkedList.takeElem_of_mem (l := s.buffer) (n := c)
      (x := .executed e) (by simp [hslots, Slot.full])
    right
    refine ⟨c, e, rest, signature, si, vote, rfl, he, rfl, hsign, buf.setElem c (.signed si), ?_, ?_⟩
    · simp [processSigningResponse, hsig, hsome, hfind, he, htake, hsign]
    · rw [LinkedList.setElem_slots, hbuf, List.map_map, LinkedList.setAt_comp_setAt, hslots,
        LinkedList.map_setAt_full_of_nodup (LinkedList.nodup_fst_of_slots hslots)]
      simp [Pipeline.sign, Pipeline.items, hp]
  · have hrest : (rest.map (Prod.map id BufferItem.executed) ++
        p.ordered.map (Prod.map id BufferItem.ordered)).find?
        (fun x => x.2.blockId == r.commitLedgerInfo.commitInfo.id) = none := by
      simp only [List.find?_eq_none, beq_iff_eq, List.mem_append, List.mem_map, Prod.exists]
      rintro _ (⟨n, e', hmem, rfl⟩ | ⟨n, o', hmem, rfl⟩)
      · exact htail (n, e') (by simp [hp, hmem])
      · exact hord (n, o') hmem
    refine .inl ⟨fun c' e' rest' sig' h _ => ?_, ?_⟩
    · simp only [List.cons.injEq, Prod.mk.injEq] at h
      obtain ⟨⟨-, rfl⟩, -⟩ := h
      exact he
    · conv_lhs => simp [processSigningResponse, hsig, hsome, hfind, he, hrest]

/-- **A signing response** signs the first Executed item when it is a success for that item, and
broadcasts the vote; in every case the signing root then moves to the first Executed item and
its signature is requested again.
Source: `start` (434–437); `process_signing_response`
Kind: L -/
theorem startIteration_signingResponse (hr : Refines s p) (hw : p.WellFormed) {r : SigningResponse}
    (htail : ∀ x ∈ p.executed.tail, x.2.blockId ≠ r.commitLedgerInfo.commitInfo.id)
    (hord : ∀ x ∈ p.ordered, x.2.blockId ≠ r.commitLedgerInfo.commitInfo.id) :
    ((∀ c e rest signature, p.executed = (c, e) :: rest → r.signatureResult = .ok signature →
        e.blockId ≠ r.commitLedgerInfo.commitInfo.id) ∧
      ∃ s', s.startIteration v (.signingResponse r) = .ok s' ∧ Refines s' p ∧
        s'.sent = s.sent ++ p.signingRequests) ∨
    ∃ c e rest signature si vote, p.executed = (c, e) :: rest ∧
      e.blockId = r.commitLedgerInfo.commitInfo.id ∧ r.signatureResult = .ok signature ∧
      e.advanceToSigned s.author signature = .ok (si, vote) ∧
      ∃ s', s.startIteration v (.signingResponse r) = .ok s' ∧ Refines s' (p.sign si) ∧
        s'.sent = s.sent ++ [.commitVote vote] ++ (p.sign si).signingRequests := by
  rcases processSigningResponse_eq hr hw htail hord with
    ⟨hno, hproc⟩ | ⟨c, e, rest, signature, si, vote, hp, he, hsig, hadv, buffer, hproc, hslots⟩
  · have hadvance := advanceSigningRoot_eq hr.slots hw.executed_ne_nil
      (by simpa [hr.signingRoot] using Pipeline.split_signingRoot p)
    refine .inl ⟨hno, { s with signingRoot := p.signingRoot, sent := s.sent ++ p.signingRequests },
      by simp [startIteration, hproc, hadvance], ⟨hr.slots, hr.executionRoot, rfl⟩, rfl⟩
  · have hw' : ∀ x ∈ (p.sign si).executed.head?, x.2.executedBlocks ≠ [] := by
      intro x hx h
      simp only [Pipeline.sign, hp] at hx
      have := hw.executed_last x (by rw [hp]; exact List.mem_cons_of_mem _ (List.mem_of_mem_head? hx))
      simp [h] at this
    have hadvance := advanceSigningRoot_eq (s := { s with buffer := buffer }.send (.commitVote vote))
      (p := p.sign si) hslots hw' (by
        intro c' hc'
        rw [send_signingRoot, hr.signingRoot, show p.signingRoot = some c by
          simp [Pipeline.signingRoot, hp]] at hc'
        cases hc'
        exact Pipeline.split_sign hp si)
    refine .inr ⟨c, e, rest, signature, si, vote, hp, he, hsig, hadv,
      { { s with buffer := buffer }.send (.commitVote vote) with
        signingRoot := (p.sign si).signingRoot
        sent := s.sent ++ [.commitVote vote] ++ (p.sign si).signingRequests },
      by simp [startIteration, hproc, hadvance],
      ⟨hslots, by simp [hr.executionRoot, Pipeline.executionRoot, Pipeline.sign, hp], rfl⟩, rfl⟩

/-- `process_commit_message` on a refined state: a vote for no item, or for an item that is not
Signed, changes nothing; a vote for a Signed item replaces it by what the vote leaves, and returns
its cursor when that is Aggregated.
Source: `process_commit_message` (341–375)
Kind: L -/
theorem processCommitMessage_eq (hr : Refines s p) (hw : p.WellFormed) (vote : CommitVote) :
    ((∀ x ∈ p.signed, x.2.blockId ≠ vote.commitInfo.id) ∧
      ∃ buffer : LinkedList BufferItem,
        s.processCommitMessage v (.commitVote vote) = .ok ({ s with buffer }, none) ∧
        buffer.slots = s.buffer.slots) ∨
    ∃ A c si B, p.signed = A ++ (c, si) :: B ∧ si.blockId = vote.commitInfo.id ∧
      ∃ buffer : LinkedList BufferItem,
      s.processCommitMessage v (.commitVote vote) = .ok ({ s with buffer },
        if ((BufferItem.signed si).withCommitVote v vote).isAggregated then some (some c) else none) ∧
      buffer.slots = (A.map (Prod.map id .signed) ++ (c, (BufferItem.signed si).withCommitVote v vote) ::
        (B.map (Prod.map id .signed) ++ p.executed.map (Prod.map id .executed) ++
          p.ordered.map (Prod.map id .ordered))).map Slot.full := by
  have hfind := LinkedList.findElem_head_of_slots hr.slots
    (fun item => item.blockId == vote.commitInfo.id)
  rcases hf : p.items.find? (fun x => x.2.blockId == vote.commitInfo.id) with _ | ⟨c, x⟩
  · refine .inl ⟨fun x hx hid => ?_, s.buffer, by simp [processCommitMessage, hfind, hf], rfl⟩
    have hmem : (x.1, BufferItem.signed x.2) ∈ p.items := by simp [Pipeline.items, hx]
    simpa [hid] using List.find?_eq_none.mp hf _ hmem
  obtain ⟨hx, as, bs, hitems, -⟩ := List.find?_eq_some.mp hf
  have hcx : (c, x) ∈ p.items := by rw [hitems]; simp
  obtain ⟨buf, htake, hbuf, hset⟩ := hr.takeElem_setElem hitems
  have hsame (h : ∀ si, x ≠ .signed si) : (∀ y ∈ p.signed, y.2.blockId ≠ vote.commitInfo.id) ∧
      ∃ buffer : LinkedList BufferItem,
        s.processCommitMessage v (.commitVote vote) = .ok ({ s with buffer }, none) ∧
        buffer.slots = s.buffer.slots := by
    refine ⟨fun y hy hid => ?_, buf.setElem c x, ?_, by rw [hset, hr.slots, hitems]⟩
    · have hmem : (y.1, BufferItem.signed y.2) ∈ p.items := by simp [Pipeline.items, hy]
      have hxid : x.blockId = vote.commitInfo.id := by simpa using hx
      have := List.inj_on_of_nodup_map hw.ids_nodup hmem hcx (hid.trans hxid.symm)
      exact h y.2 (congrArg Prod.snd this).symm
    have hx : x.withCommitVote v vote = x := BufferItem.withCommitVote_of_not_signed h
    simp [processCommitMessage, hfind, hf, htake, hx, Pipeline.isAggregated_of_mem_items hcx]
  rcases x with o | e | si | a
  · exact .inl (hsame (by simp))
  · exact .inl (hsame (by simp))
  · obtain ⟨A, B, hAB⟩ := List.append_of_mem (Pipeline.mem_signed_of_mem_items hcx)
    have hitems' : p.items = A.map (Prod.map id .signed) ++ (c, .signed si) ::
        (B.map (Prod.map id .signed) ++ p.executed.map (Prod.map id .executed) ++
          p.ordered.map (Prod.map id .ordered)) := by
      simp [Pipeline.items, hAB]
    refine .inr ⟨A, c, si, B, hAB, by simpa using hx,
      buf.setElem c ((BufferItem.signed si).withCommitVote v vote), ?_, ?_⟩
    · by_cases hagg : ((BufferItem.signed si).withCommitVote v vote).isAggregated <;>
        simp [processCommitMessage, hfind, hf, htake, hagg]
    · rw [LinkedList.setElem_slots, hbuf, List.map_map, LinkedList.setAt_comp_setAt, hr.slots,
        hitems', LinkedList.map_setAt_full_of_nodup (LinkedList.nodup_fst_of_slots (hitems' ▸ hr.slots))]
  · exact absurd hcx Pipeline.not_mem_items_aggregated

/-- **A commit vote** changes nothing unless it is for a Signed item. Then the item either stays
Signed (with the vote's signature, if it matched) or becomes Aggregated, and `advance_head` pops
the Signed items up to it and sends one persisting request for them.
Source: `start` (438–442); `process_commit_message`; `advance_head`
Kind: L -/
theorem startIteration_commitVote (hr : Refines s p) (hw : p.WellFormed) (vote : CommitVote) :
    ∃ s', s.startIteration v (.commitMessage (.commitVote vote)) = .ok s' ∧
      (((∀ x ∈ p.signed, x.2.blockId ≠ vote.commitInfo.id) ∧ Refines s' p ∧ s'.sent = s.sent) ∨
       (∃ A c si B si', p.signed = A ++ (c, si) :: B ∧ si.blockId = vote.commitInfo.id ∧
          (BufferItem.signed si).withCommitVote v vote = .signed si' ∧
          Refines s' { p with signed := A ++ (c, si') :: B } ∧ s'.sent = s.sent) ∨
       (∃ A c si B a, p.signed = A ++ (c, si) :: B ∧ si.blockId = vote.commitInfo.id ∧
          (BufferItem.signed si).withCommitVote v vote = .aggregated a ∧
          Refines s' { p with signed := B } ∧
          s'.sent = s.sent ++ [.persistingRequest ⟨(A.map (fun x : Nat × SignedItem => BufferItem.signed x.2) ++
            [BufferItem.aggregated a]).flatMap BufferItem.getBlocks, a.aggregatedProof,
            a.callback⟩])) := by
  rcases processCommitMessage_eq (v := v) hr hw vote with
    ⟨hno, buffer, hproc, hbuf⟩ | ⟨A, c, si, B, hAB, hid, buffer, hproc, hbuf⟩
  · exact ⟨{ s with buffer }, by simp [startIteration, hproc],
      .inl ⟨hno, ⟨hbuf.trans hr.slots, hr.executionRoot, hr.signingRoot⟩, rfl⟩⟩
  rcases BufferItem.withCommitVote_signed v vote si with ⟨si', hsi', -, -⟩ | ⟨a, ha, hao, -, -⟩
  · refine ⟨{ s with buffer }, by simp [startIteration, hproc, hsi', BufferItem.isAggregated],
      .inr (.inl ⟨A, c, si, B, si', hAB, hid, hsi', ⟨?_, hr.executionRoot, hr.signingRoot⟩, rfl⟩)⟩
    rw [hbuf, hsi']
    simp [Pipeline.items]
  · have hids : ((({ s with buffer } : StateManager).buffer.slots.filterMap Slot.elem).map
        BufferItem.blockId).Nodup := by
      have h := hw.ids_nodup
      rw [show p.items = A.map (Prod.map id .signed) ++ (c, .signed si) ::
          (B.map (Prod.map id .signed) ++ p.executed.map (Prod.map id .executed) ++
            p.ordered.map (Prod.map id .ordered)) by simp [Pipeline.items, hAB]] at h
      show ((buffer.slots.filterMap Slot.elem).map BufferItem.blockId).Nodup
      rw [hbuf, ha, LinkedList.filterMap_elem_map_full]
      simpa [Function.comp_def, hao] using h
    have hadv := @advanceHead_eq_of_full
      { s with buffer } ((A.map (Prod.map id BufferItem.signed)).map Slot.full)
      ((B.map (Prod.map id BufferItem.signed) ++
        p.executed.map (Prod.map id BufferItem.executed) ++
        p.ordered.map (Prod.map id BufferItem.ordered)).map Slot.full) c a
      (by rw [hbuf, ha]; simp [Slot.full])
      (fun sl hsl => by
        obtain ⟨x, -, rfl⟩ := List.mem_map.mp (hbuf ▸ hsl : sl ∈ _)
        rfl) hids
    generalize hs' : StateManager.send _ _ = s' at hadv
    refine ⟨s', by simp [startIteration, hproc, ha, BufferItem.isAggregated, hadv],
      .inr (.inr ⟨A, c, si, B, a, hAB, hid, ha, ⟨?_, ?_, ?_⟩, ?_⟩)⟩ <;> subst hs'
    · simp [hbuf, ha, Pipeline.items, List.drop_append_eq_append_drop]
    · exact hr.executionRoot
    · exact hr.signingRoot
    · rw [send_sent, LinkedList.filterMap_elem_map_full]; simp [List.map_map, Function.comp_def]

/-- `process_sync_request` without reconfiguration on a refined state: when the ledger info
aggregates an item of the buffer, the items up to it are popped and persisted under the ledger
info; otherwise the buffer is as it was. Both roots are reset and the request is acknowledged.
Source: `process_sync_request` (246–282)
Kind: L -/
theorem processSyncRequest_eq (hr : Refines s p) (hw : p.WellFormed) {r : SyncRequest}
    (hrc : r.reconfig = false) :
    ((∀ x ∈ p.items, x.2.blockId = r.ledgerInfo.commitInfo.id →
        (x.2.tryAdvanceToAggregatedWithLedgerInfo v r.ledgerInfo).isAggregated = false) ∧
      ∃ buffer : LinkedList BufferItem,
        s.processSyncRequest v r = .ok ((resetAllRoots { s with buffer }).send .syncAck) ∧
        buffer.slots = s.buffer.slots) ∨
    ∃ A c x B, p.items = A ++ (c, x) :: B ∧ x.blockId = r.ledgerInfo.commitInfo.id ∧
      v.verifySignatures r.ledgerInfo = true ∧ ∃ s1 : StateManager,
        s.processSyncRequest v r = .ok ((resetAllRoots s1).send .syncAck) ∧
        s1.buffer.slots = B.map Slot.full ∧ s1.endEpoch = s.endEpoch ∧
        s1.sent = s.sent ++ [.persistingRequest ⟨(A.map Prod.snd ++
          [BufferItem.aggregated { x.origin with aggregatedProof := r.ledgerInfo }]).flatMap
            BufferItem.getBlocks, r.ledgerInfo, x.origin.callback⟩] := by
  have hfind := LinkedList.findElem_head_of_slots hr.slots
    (fun item => item.blockId == r.ledgerInfo.commitInfo.id)
  rcases hf : p.items.find? (fun x => x.2.blockId == r.ledgerInfo.commitInfo.id) with _ | ⟨c, x⟩
  · refine .inl ⟨fun x hx hid => ?_, s.buffer, by simp [processSyncRequest, hrc, hfind, hf], rfl⟩
    simpa [hid] using List.find?_eq_none.mp hf x hx
  obtain ⟨hx, as, bs, hitems, -⟩ := List.find?_eq_some.mp hf
  have hmem : (c, x) ∈ p.items := by rw [hitems]; simp
  obtain ⟨buf, htake, -, hset⟩ := hr.takeElem_setElem hitems
  have hna := Pipeline.isAggregated_of_mem_items hmem
  rcases BufferItem.tryAdvanceToAggregatedWithLedgerInfo_cases v x r.ledgerInfo with
    hsame | ⟨hagg, hver, hid⟩
  · refine .inl ⟨fun y hy hid => ?_, buf.setElem c x, ?_, by rw [hset, hr.slots, hitems]⟩
    · have hxid : x.blockId = r.ledgerInfo.commitInfo.id := by simpa using hx
      rw [List.inj_on_of_nodup_map hw.ids_nodup hy hmem (hid.trans hxid.symm), hsame, hna]
    · simp [processSyncRequest, hrc, hfind, hf, htake, hsame, hna]
  · set a : AggregatedItem := { x.origin with aggregatedProof := r.ledgerInfo }
    have hids : (((({ s with buffer := buf.setElem c (.aggregated a) } : StateManager).buffer.slots.filterMap
        Slot.elem)).map BufferItem.blockId).Nodup := by
      have h := hw.ids_nodup
      rw [hitems] at h
      show (((buf.setElem c (.aggregated a)).slots.filterMap Slot.elem).map BufferItem.blockId).Nodup
      rw [hset, LinkedList.filterMap_elem_map_full]
      simpa [Function.comp_def, a, BufferItem.blockId_eq] using h
    have hadv := @advanceHead_eq_of_full
      { s with buffer := buf.setElem c (.aggregated a) } (as.map Slot.full) (bs.map Slot.full) c a
      (by rw [hset]; simp [Slot.full])
      (fun sl hsl => by
        obtain ⟨y, -, rfl⟩ := List.mem_map.mp (hset _ ▸ hsl : sl ∈ _)
        rfl) hids
    generalize hs1 : StateManager.send _ _ = s1 at hadv
    refine .inr ⟨as, c, x, bs, hitems, by simpa using hx, hver, s1, ?_, ?_, ?_, ?_⟩ <;> subst hs1
    · simp [processSyncRequest, hrc, hfind, hf, htake, hagg, BufferItem.isAggregated, hadv]
    · simp only [send_buffer, LinkedList.dropFront_slots, hset]
      simp [List.drop_append_eq_append_drop]
    · rfl
    · rw [send_sent, LinkedList.filterMap_elem_map_full]

/-- With both roots reset, the post-actions of a sync request move each root to the head of its
run, each with its request. Source: `start` (420–426). Kind: L -/
theorem startIteration_syncRequest_of_reset {r : SyncRequest} {s1 : StateManager} {q : Pipeline}
    (hproc : s.processSyncRequest v r = .ok ((resetAllRoots s1).send .syncAck))
    (hs : s1.buffer.slots = q.items.map Slot.full)
    (hne : ∀ x ∈ q.executed.head?, x.2.executedBlocks ≠ []) :
    s.startIteration v (.syncRequest r) = .ok { s1 with
      executionRoot := q.executionRoot
      signingRoot := q.signingRoot
      sent := s1.sent ++ [.syncAck] ++ q.executionRequests ++ q.signingRequests } := by
  have hexec := advanceExecutionRoot_eq (s := (resetAllRoots s1).send .syncAck) hs (by simp [resetAllRoots])
  have hsign := advanceSigningRoot_eq (s := { (resetAllRoots s1).send .syncAck with
      executionRoot := q.executionRoot
      sent := ((resetAllRoots s1).send .syncAck).sent ++ q.executionRequests }) hs hne
    (by simp [resetAllRoots])
  simp only [startIteration, hproc, except_ok_bind, resetAllRoots, send, Option.isNone_none,
    if_true] at hexec hsign ⊢
  rw [hexec]
  simp only [except_ok_bind, Option.isNone_none, if_true, hsign]

/-- **A sync request without reconfiguration**: if the ledger info aggregates an item of the
buffer, that item and every item before it leave the buffer in one persisting request;
otherwise the buffer and the roots stay as they were. The request is acknowledged, and each root,
reset, moves back to the head of its run with its request.
Source: `start` (420–426); `process_sync_request`
Kind: L -/
theorem startIteration_syncRequest (hr : Refines s p) (hw : p.WellFormed) {r : SyncRequest}
    (hrc : r.reconfig = false) :
    ∃ s', s.startIteration v (.syncRequest r) = .ok s' ∧ s'.endEpoch = s.endEpoch ∧
      (((∀ x ∈ p.items, x.2.blockId = r.ledgerInfo.commitInfo.id →
          (x.2.tryAdvanceToAggregatedWithLedgerInfo v r.ledgerInfo).isAggregated = false) ∧
        Refines s' p ∧ s'.sent = s.sent ++ [.syncAck] ++ p.executionRequests ++ p.signingRequests) ∨
        ∃ A c x B, p.items = A ++ (c, x) :: B ∧ x.blockId = r.ledgerInfo.commitInfo.id ∧
          v.verifySignatures r.ledgerInfo = true ∧ Refines s' (p.dropItems (A.length + 1)) ∧
          s'.sent = s.sent ++ [.persistingRequest ⟨(A.map Prod.snd ++
              [BufferItem.aggregated { x.origin with aggregatedProof := r.ledgerInfo }]).flatMap
                BufferItem.getBlocks, r.ledgerInfo, x.origin.callback⟩, .syncAck] ++
            (p.dropItems (A.length + 1)).executionRequests ++
            (p.dropItems (A.length + 1)).signingRequests) := by
  rcases processSyncRequest_eq (v := v) hr hw hrc with
    ⟨hno, buffer, hproc, hbuf⟩ | ⟨A, c, x, B, hitems, hid, hver, s1, hproc, hslots, hend, hsent⟩
  · have hs : ({ s with buffer } : StateManager).buffer.slots = p.items.map Slot.full :=
      hbuf.trans hr.slots
    refine ⟨_, startIteration_syncRequest_of_reset hproc hs hw.executed_ne_nil, rfl,
      .inl ⟨hno, ⟨hs, rfl, rfl⟩, rfl⟩⟩
  · have hs : s1.buffer.slots = (p.dropItems (A.length + 1)).items.map Slot.full := by
      rw [hslots, Pipeline.items_dropItems, hitems]
      simp
    refine ⟨_, startIteration_syncRequest_of_reset hproc hs (hw.dropItems _).executed_ne_nil,
      hend, .inr ⟨A, c, x, B, hitems, hid, hver, ⟨hs, rfl, rfl⟩, ?_⟩⟩
    simp [hsent]

/-- On a refined state whose execution root is `None` (the Ordered run is empty),
`advance_execution_root` changes nothing. Source: `advance_execution_root`. Kind: L -/
theorem advanceExecutionRoot_of_none (hr : Refines s p) (h : s.executionRoot = none) :
    s.advanceExecutionRoot = .ok s := by
  have hp : p.ordered = [] := by simpa [hr.executionRoot, Pipeline.executionRoot] using h
  rw [advanceExecutionRoot_eq hr.slots (by simp [h])]
  simp [Pipeline.executionRoot, Pipeline.executionRequests, hp, ← h]

/-- The same for `advance_signing_root`. Source: `advance_signing_root`. Kind: L -/
theorem advanceSigningRoot_of_none (hr : Refines s p) (hw : p.WellFormed)
    (h : s.signingRoot = none) : s.advanceSigningRoot = .ok s := by
  have hp : p.executed = [] := by simpa [hr.signingRoot, Pipeline.signingRoot] using h
  rw [advanceSigningRoot_eq hr.slots hw.executed_ne_nil (by simp [h])]
  simp [Pipeline.signingRoot, Pipeline.signingRequests, hp, ← h]

/-- **A sync request with reconfiguration** ends the epoch and is acknowledged; the buffer and
the roots are untouched. Source: `start` (420–426); `process_sync_request` (247–249). Kind: L -/
theorem startIteration_syncRequest_reconfig (hr : Refines s p) (hw : p.WellFormed)
    {r : SyncRequest} (hrc : r.reconfig = true) :
    s.startIteration v (.syncRequest r) = .ok { s with endEpoch := true, sent := s.sent ++ [.syncAck] } := by
  obtain ⟨s0, hs0, hproc⟩ : ∃ s0, s0 = { s with endEpoch := true, sent := s.sent ++ [.syncAck] } ∧
      s.processSyncRequest v r = .ok s0 := ⟨_, rfl, by simp [processSyncRequest, hrc, send]⟩
  have hr' : Refines s0 p := hs0 ▸ ⟨hr.slots, hr.executionRoot, hr.signingRoot⟩
  have hexec := advanceExecutionRoot_of_none hr'
  have hsign := advanceSigningRoot_of_none hr' hw
  rw [← hs0]
  simp only [startIteration, hproc, except_ok_bind]
  by_cases h1 : s0.executionRoot = none <;> by_cases h2 : s0.signingRoot = none <;>
    simp [h1, h2, hexec, hsign]

/-! ## Re-broadcasting -/

/-- The loop collects the vote of every Signed item before the signing root.
Source: `retry_broadcasting_commit_votes` (383–398)
Kind: L -/
theorem retryLoop_signed (root : Link) (S : List (Nat × SignedItem)) (rest : List (Slot BufferItem))
    (h : ∀ x ∈ S, some x.1 ≠ root) :
    retryLoop root ((S.map (Prod.map id .signed)).map Slot.full ++ rest) =
      (S.map (·.2.commitVote) ++ ·) <$> retryLoop root rest := by
  induction S with
  | nil =>
    simp only [List.map_nil, List.nil_append]
    cases retryLoop root rest <;> rfl
  | cons x S ih =>
    have hx : ¬ some x.1 = root := h x (.head _)
    simp only [List.map_cons, List.cons_append, Slot.full, Prod.map_fst, id_eq, Prod.map_snd]
    rw [retryLoop, if_neg hx]
    rw [ih fun y hy => h y (.tail _ hy)]
    cases retryLoop root rest <;> rfl

/-- On a refined state the loop returns the votes of the Signed run, or reaches `unreachable!()`
exactly when there is an Ordered item but no Executed one (the signing root is `None`, so the
loop walks past the Signed run into the Ordered one).
Source: `retry_broadcasting_commit_votes` (380–402)
Kind: L -/
theorem retryLoop_items (p : Pipeline) (hnd : (p.items.map Prod.fst).Nodup) :
    retryLoop p.signingRoot (p.items.map Slot.full) =
      if p.executed = [] ∧ p.ordered ≠ [] then .error (.unreachable "")
      else .ok (p.signed.map (·.2.commitVote)) := by
  have hS : ∀ x ∈ p.signed, some x.1 ≠ p.signingRoot := by
    intro x hx hc
    rcases hp : p.executed with _ | ⟨⟨c, e⟩, rest⟩
    · simp [Pipeline.signingRoot, hp] at hc
    · have hc : x.1 = c := by simpa [Pipeline.signingRoot, hp] using hc
      simp only [Pipeline.items, hp, List.map_append, List.append_assoc] at hnd
      exact List.disjoint_of_nodup_append hnd
        (List.mem_map_of_mem Prod.fst (List.mem_map_of_mem (Prod.map id BufferItem.signed) hx))
        (by simp [hc])
  rw [Pipeline.items, List.append_assoc, List.map_append, retryLoop_signed _ _ _ hS]
  rcases hp : p.executed with _ | ⟨⟨c, e⟩, rest⟩
  · rcases ho : p.ordered with _ | ⟨⟨c, o⟩, rest⟩
    · simp [retryLoop]
    · simp [retryLoop, Pipeline.signingRoot, hp, Slot.full]
  · simp [retryLoop, Pipeline.signingRoot, hp, Slot.full]

/-- **A tick** re-broadcasts the commit votes of the Signed run, unless the buffer holds an
Ordered item and no Executed one, where it reaches `unreachable!()`.
Source: `start` (443–445); `retry_broadcasting_commit_votes`
Kind: L -/
theorem startIteration_tick (hr : Refines s p) :
    s.startIteration v .tick =
      if p.executed = [] ∧ p.ordered ≠ [] then .error (.unreachable "")
      else .ok { s with sent := s.sent ++ p.signed.map (fun x => .commitVote x.2.commitVote) } := by
  simp only [startIteration, retryBroadcastingCommitVotes, hr.signingRoot, hr.slots,
    retryLoop_items p (LinkedList.nodup_fst_of_slots hr.slots)]
  split <;> simp [List.map_map, Function.comp_def]

/-! ## The loop simulates the abstract handler -/

/-- **Each turn of the loop is a `Step` of the pipeline**: from a state that refines a well-formed
pipeline ready for the event, a turn that returns refines the pipeline after one `Step` and has
sent exactly that step's messages.
Source: `start` (409–447)
Kind: L -/
theorem startIteration_step {e : Event} {s' : StateManager} (hr : Refines s p) (hw : p.WellFormed)
    (hready : p.Ready e) (h : s.startIteration v e = .ok s') :
    ∃ p' outs, p.Step v s.author e p' outs ∧ Refines s' p' ∧ s'.sent = s.sent ++ outs := by
  cases e with
  | orderedBlocks b =>
    obtain ⟨heq, hr'⟩ := startIteration_orderedBlocks (v := v) hr b
    rw [heq] at h
    cases h
    exact ⟨_, _, .push p _ b, hr', rfl⟩
  | syncRequest r =>
    cases hrc : r.reconfig
    · obtain ⟨s'', heq, -, hcases⟩ := startIteration_syncRequest (v := v) hr hw hrc
      rw [heq] at h
      cases h
      rcases hcases with ⟨hno, hr', hsent⟩ | ⟨A, c, x, B, hitems, hid, hver, hr', hsent⟩
      · exact ⟨_, _, .syncNothing p hrc hno, hr', by simp [hsent]⟩
      · exact ⟨_, _, .syncAggregate p hrc hitems hid hver, hr', by simp [hsent]⟩
    · rw [startIteration_syncRequest_reconfig hr hw hrc] at h
      cases h
      exact ⟨_, _, .syncReconfig p hrc, ⟨hr.slots, hr.executionRoot, hr.signingRoot⟩, rfl⟩
  | executionResponse r =>
    rcases hin : r.inner with err | blocks
    · simp [startIteration, processExecutionResponse, hin] at h
    obtain ⟨b, hb, htail⟩ := hready blocks hin
    obtain ⟨s'', heq, hr', hsent⟩ := startIteration_executionResponse (v := v) hr hin hb htail
    rw [heq] at h
    cases h
    exact ⟨_, _, .execute p hin, hr', by simp [hsent]⟩
  | signingResponse r =>
    rcases startIteration_signingResponse (v := v) hr hw hready.1 hready.2 with
      ⟨hno, s'', heq, hr', hsent⟩ |
        ⟨c, e, rest, signature, si, vote, hp, he, hsig, hadv, s'', heq, hr', hsent⟩
    · rw [heq] at h
      cases h
      exact ⟨_, _, .signNothing p hno, hr', hsent⟩
    · rw [heq] at h
      cases h
      exact ⟨_, _, .sign p hp he hsig hadv, hr', by simp [hsent]⟩
  | commitMessage m =>
    cases m with
    | other => simp [startIteration, processCommitMessage] at h
    | commitVote vote =>
      obtain ⟨s'', heq, hcases⟩ := startIteration_commitVote (v := v) hr hw vote
      rw [heq] at h
      cases h
      rcases hcases with ⟨hno, hr', hsent⟩ | ⟨A, c, si, B, si', hAB, -, hsi, hr', hsent⟩ |
        ⟨A, c, si, B, a, hAB, -, ha, hr', hsent⟩
      · exact ⟨_, _, .voteNothing p hno, hr', by simp [hsent]⟩
      · exact ⟨_, _, .vote p vote hAB hsi, hr', by simp [hsent]⟩
      · exact ⟨_, _, .voteAggregate p vote hAB ha, hr', hsent⟩
  | tick =>
    rw [startIteration_tick hr] at h
    split at h
    · cases h
    · cases h
      exact ⟨_, _, .tick p ‹_›, ⟨hr.slots, hr.executionRoot, hr.signingRoot⟩, rfl⟩

end StateManager

end BufferManager
