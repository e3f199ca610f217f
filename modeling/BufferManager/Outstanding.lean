import BufferManager.Reachable

/-!
# Every root waits on an outstanding request

A stage root is never idle: the item at `execution_root` has had its execution requested and no
execution response, and the item at `signing_root` has had more signing requests than signing
responses, failed ones included. The signing root only moves by signing its item, and `start`
advances it after every signing response, so each response, failed or stale, is followed by a
new request for the root; an Executed item behind the root has never been the root and has had
no request, hence no response.

* `Outstanding` — every signing response answered a request, and the first Executed item has had
  more requests than responses. **`Outstanding.step`** keeps it over every admissible step.
* **`reachable_roots_outstanding`** — the statement on the reachable states.

The execution side is not only never idle but never repeated while no sync request arrives: an
item leaves the Ordered run only when the response to its one request executes it, so the root
only moves forward, onto items never requested (`NotRepeated`,
`Pipeline.Step.executionRequestIds_fresh`).

* **`reachable_executionRequests_nodup`** — without sync requests, and with each execution
  response answering a request of its own, no block's execution is requested twice.
* **`reachable_executionRequests_in_order`** — under the same conditions the requests follow the
  arrival order: the requested blocks are a prefix of the pushed ones (`RequestedInOrder`).

The sync side's replies are counted too: **`reachable_syncRequests_acked_once`** — one ack per
sync request consumed, and no other.
-/

namespace BufferManager

/-- An admissible signing response answers a signing request that was sent.
Source: none: infrastructure
Kind: L -/
theorem Admissible.signingResponse_requested {sent : List Output} {h : List Event} {e : Event}
    (ha : Admissible sent h e) : ∀ b ∈ signingResponseIds [e], b ∈ signingRequestIds sent := by
  cases e with
  | signingResponse r =>
    intro b hb
    obtain rfl : b = r.commitLedgerInfo.commitInfo.id := by simpa using hb
    exact ha
  | _ => simp

namespace Pipeline

variable {v : ValidatorVerifier} {au : Author} {p p' : Pipeline} {e : Event} {outs : List Output}

/-- **The Executed run after a step** holds items that were Executed or Ordered before.
Source: none: infrastructure. Kind: L -/
theorem Step.executedIds_subset (hs : p.Step v au e p' outs) :
    ∀ b ∈ p'.executedIds, b ∈ p.executedIds ∨ b ∈ p.orderedIds := by
  cases hs with
  | @execute r blocks hok =>
    rcases execute_cases p blocks with ⟨-, h⟩ | ⟨n, o, rest, hp, -, h⟩ <;> rw [h]
    · exact fun b hb => .inl hb
    · intro b hb
      simp only [executedIds, List.map_append, List.map_singleton, List.mem_append,
        List.mem_singleton] at hb
      rcases hb with hb | rfl
      · exact .inl hb
      · exact .inr (by simp [orderedIds, hp])
  | @sign r c x rest sig si vote hp =>
    exact fun b hb => .inl (by simp only [sign_of_cons hp, executedIds] at hb; simp [executedIds, hp, hb])
  | @syncAggregate r hrc A B c x hitems hid hver =>
    intro b hb
    rw [executedIds, dropItems_executed, List.map_drop] at hb
    exact .inl (List.mem_of_mem_drop hb)
  | push n b => exact fun b hb => .inl (by simpa [executedIds] using hb)
  | signNothing | voteNothing | vote | voteAggregate | syncNothing | syncReconfig | tick =>
    exact fun b hb => .inl hb

end Pipeline

/-- The signing requests outstanding after a run: every signing response answered a request, and
the first Executed item has had more signing requests than signing responses.
Source: `advance_signing_root` (168–193), as `start` calls it after every signing response
Kind: D -/
structure Outstanding (p : Pipeline) (h : List Event) (sent : List Output) : Prop where
  /-- Every signing response consumed answered a request. -/
  signingResponded_requested : ∀ b ∈ signingResponseIds h, b ∈ signingRequestIds sent
  /-- The first Executed item waits on a request. -/
  signingRoot_lt : ∀ b ∈ p.executedIds.head?,
    (signingResponseIds h).count b < (signingRequestIds sent).count b

namespace Outstanding

variable {v : ValidatorVerifier} {au : Author} {p p' : Pipeline} {h : List Event} {e : Event}
  {sent outs : List Output}

/-- Source: `StateManager::new`. Kind: L -/
theorem init : Outstanding ⟨[], [], []⟩ [] [] :=
  ⟨by simp, by simp [Pipeline.executedIds]⟩

/-- An Executed or Ordered item has had fewer signing responses than requests, being the first
Executed item, or has had no request, having never been the signing root.
Source: none: infrastructure
Kind: L -/
theorem lt_or_not_requested (ho : Outstanding p h sent) (hi : Invariant p h sent) {b : HashValue}
    (hb : b ∈ p.executedIds ∨ b ∈ p.orderedIds) :
    (signingResponseIds h).count b < (signingRequestIds sent).count b ∨
      b ∉ signingRequestIds sent := by
  by_cases hhead : b ∈ p.executedIds.head?
  · exact .inl (ho.signingRoot_lt b hhead)
  refine .inr fun hreq => hb.elim (fun hb => hi.signingRequested_not_tail b hreq ?_)
    (hi.signingRequested_not_ordered b hreq)
  cases hq : p.executedIds with
  | nil => simp [hq] at hb
  | cons y ys =>
    rw [hq] at hb hhead
    exact List.mem_of_ne_of_mem (Ne.symm (by simpa using hhead)) hb

/-- **The count of outstanding signing requests is kept by every admissible step.**
Source: the arms of `start` (411–445)
Kind: L -/
theorem step (ho : Outstanding p h sent) (hi : Invariant p h sent) (hs : p.Step v au e p' outs)
    (hw : p'.WellFormed) (ha : Admissible sent h e) :
    Outstanding p' (h ++ [e]) (sent ++ outs) := by
  refine ⟨?_, fun b hb => ?_⟩
  · simp only [signingResponseIds_append, List.mem_append, signingRequestIds_append]
    rintro b (hb | hb)
    · exact .inl (ho.signingResponded_requested b hb)
    · exact .inl (ha.signingResponse_requested b hb)
  rw [signingRequestIds_append, List.count_append, signingResponseIds_append, List.count_append]
  rcases hs.signingRoot_or_requested with ⟨hhead, hnone⟩ | hreq
  · have hb' : b ∈ p.executedIds.head? := by
      simpa [Pipeline.executedIds, List.head?_map, hhead] using hb
    rw [hnone, List.count_nil]
    exact (ho.signingRoot_lt b hb').trans_le (Nat.le_add_right _ _)
  have hnew := List.count_pos_iff.mpr (signingRequestIds_mono hreq b
    (by simpa [Pipeline.signingRequestIds_signingRequests hw] using hb))
  rcases ho.lt_or_not_requested hi (hs.executedIds_subset b (List.mem_of_mem_head? hb)) with
    hlt | hnreq
  · have hone : (signingResponseIds [e]).count b ≤ 1 := by
      simp only [signingResponseIds_cons, signingResponseIds_nil, List.append_nil]
      exact (List.count_le_length _ _).trans (by cases e.signingResponseId? <;> simp)
    omega
  · have h1 := List.count_eq_zero_of_not_mem hnreq
    have h2 := List.count_eq_zero_of_not_mem fun hr => hnreq (ho.signingResponded_requested b hr)
    have h3 := List.count_eq_zero_of_not_mem fun hr => hnreq (ha.signingResponse_requested b hr)
    omega

end Outstanding

/-- **Every reachable state refines a pipeline that keeps the run invariant and the count of
outstanding signing requests.**
Source: `start` (405–449)
Kind: L -/
theorem Reachable.outstanding {v : ValidatorVerifier} {s : StateManager} {h : List Event}
    (hr : Reachable v Admissible s h) :
    ∃ p, Refines s p ∧ Invariant p h s.sent ∧ Outstanding p h s.sent := by
  induction hr with
  | init a => exact ⟨⟨[], [], []⟩, ⟨rfl, rfl, rfl⟩, Invariant.init, Outstanding.init⟩
  | step _ hend ha hok ih =>
    obtain ⟨p, hr, hi, ho⟩ := ih
    obtain ⟨p', outs, hs, hr', hsent⟩ :=
      StateManager.startIteration_step hr hi.wellFormed (hi.ready ha) hok
    have hi' := hi.step hs ha
    exact ⟨p', hr', hsent ▸ hi', hsent ▸ ho.step hi hs hi'.wellFormed ha⟩

/-- **No stage waits without an outstanding request**: the item at `execution_root` has had an
execution request and no execution response; the item at `signing_root` has had more signing
requests than signing responses, failed ones included.
Source: `advance_execution_root`, `advance_signing_root` (152–193); `process_signing_response`
(305–336); `start` (405–449)
Kind: P -/
theorem reachable_roots_outstanding {v : ValidatorVerifier} {s : StateManager} {h : List Event}
    (hr : Reachable v Admissible s h) :
    (∀ n, s.executionRoot = some n → ∃ x, s.buffer.lookup n = some (some x) ∧
      x.blockId ∈ executionRequestIds s.sent ∧ x.blockId ∉ executionResponseIds h) ∧
    (∀ n, s.signingRoot = some n → ∃ x, s.buffer.lookup n = some (some x) ∧
      (signingResponseIds h).count x.blockId < (signingRequestIds s.sent).count x.blockId) := by
  obtain ⟨p, hp, hi, ho⟩ := hr.outstanding
  refine ⟨fun n hn => ?_, fun n hn => ?_⟩
  · rw [hp.executionRoot] at hn
    obtain ⟨⟨c, o⟩, rest, hcons⟩ : ∃ x rest, p.ordered = x :: rest := by
      cases hq : p.ordered with
      | nil => simp [Pipeline.executionRoot, hq] at hn
      | cons x rest => exact ⟨x, rest, rfl⟩
    obtain rfl : c = n := by simpa [Pipeline.executionRoot, hcons] using hn
    have hid : o.blockId ∈ p.orderedIds := by simp [Pipeline.orderedIds, hcons]
    refine ⟨.ordered o, hp.lookup (by simp [Pipeline.items, hcons]),
      hi.executionRoot_requested _ (by simp [Pipeline.orderedIds, hcons]),
      fun hresp => hi.executionResponded_not_ordered _ hresp hid⟩
  · rw [hp.signingRoot] at hn
    obtain ⟨⟨c, x⟩, rest, hcons⟩ : ∃ x rest, p.executed = x :: rest := by
      cases hq : p.executed with
      | nil => simp [Pipeline.signingRoot, hq] at hn
      | cons x rest => exact ⟨x, rest, rfl⟩
    obtain rfl : c = n := by simpa [Pipeline.signingRoot, hcons] using hn
    exact ⟨.executed x, hp.lookup (by simp [Pipeline.items, hcons]),
      ho.signingRoot_lt _ (by simp [Pipeline.executedIds, hcons])⟩

/-- With three batches at three stages both roots are set, each on an item that waits on a
request. Source: none: witness. Kind: L -/
theorem reachable_roots_outstanding_threeStages :
    ∃ s, Reachable quorumOfTwo Admissible s threeStages ∧
      s.signingRoot = some 1 ∧ s.executionRoot = some 2 ∧
      (∀ n, s.executionRoot = some n → ∃ x, s.buffer.lookup n = some (some x) ∧
        x.blockId ∈ executionRequestIds s.sent ∧ x.blockId ∉ executionResponseIds threeStages) ∧
      (∀ n, s.signingRoot = some n → ∃ x, s.buffer.lookup n = some (some x) ∧
        (signingResponseIds threeStages).count x.blockId <
          (signingRequestIds s.sent).count x.blockId) := by
  obtain ⟨s, hr, -, hsign, hexec⟩ := reachable_threeStages
  exact ⟨s, hr, hsign, hexec, reachable_roots_outstanding hr⟩

/-! ## No execution is requested twice without a sync -/

/-- Whether an event is a sync request. Source: none: bookkeeping. Kind: D -/
def Event.isSyncRequest : Event → Bool
  | .syncRequest _ => true
  | _ => false

/-- An admissible event that is no sync request and that, if it is an execution response,
answers an execution request of its block that no earlier response answered.
Source: spec §5 (one response per request)
Kind: D -/
def AdmissibleNoSync (sent : List Output) (h : List Event) (e : Event) : Prop :=
  Admissible sent h e ∧ e.isSyncRequest = false ∧
    ∀ b ∈ executionResponseIds [e],
      (executionResponseIds h).count b < (executionRequestIds sent).count b

/-- Source: none: infrastructure. Kind: D -/
instance AdmissibleNoSync.decidable (sent : List Output) (h : List Event) (e : Event) :
    Decidable (AdmissibleNoSync sent h e) :=
  inferInstanceAs (Decidable (_ ∧ _ ∧ _))

/-- The execution requests not repeated after a run: no block's execution was requested twice,
and every pushed block no longer Ordered has had an execution response.
Source: `advance_execution_root` (154–164), as `start` calls it
Kind: D -/
structure NotRepeated (p : Pipeline) (h : List Event) (sent : List Output) : Prop where
  /-- No block's execution was requested twice. -/
  executionRequested_nodup : (executionRequestIds sent).Nodup
  /-- A pushed block that is no longer Ordered was executed by a response. -/
  responded_of_not_ordered : ∀ b ∈ pushedIds h, b ∉ p.orderedIds → b ∈ executionResponseIds h

namespace Pipeline

variable {v : ValidatorVerifier} {au : Author} {p p' : Pipeline} {h : List Event} {e : Event}
  {sent outs : List Output}

/-- A step sends at most one execution request. Source: `advance_execution_root`. Kind: L -/
theorem Step.executionRequestIds_nodup (hs : p.Step v au e p' outs) :
    (executionRequestIds outs).Nodup := by
  cases hs with
  | push n b | execute hok =>
    split <;> simp [executionRequestIds_executionRequests, Option.toList_nodup]
  | syncNothing | syncAggregate =>
    simp [executionRequestIds_executionRequests, Option.toList_nodup]
  | signNothing | sign | voteNothing | vote | voteAggregate | syncReconfig | tick => simp

/-- A pushed block joins the Ordered run. Source: `process_ordered_blocks` (140–150). Kind: L -/
theorem Step.pushed_mem_orderedIds (hs : p.Step v au e p' outs) :
    ∀ b ∈ pushedIds [e], b ∈ p'.orderedIds := by
  cases hs with
  | push n b => simp [orderedIds, pushedIds, pushedItems]
  | _ => simp [pushedIds, pushedItems]

/-- **Without a sync, an item leaves the Ordered run only when a response executes it**: the
execution response of its block. Source: `process_execution_response` (285–302). Kind: L -/
theorem Step.responded_of_left_ordered (hs : p.Step v au e p' outs)
    (he : e.isSyncRequest = false) :
    ∀ b ∈ p.orderedIds, b ∉ p'.orderedIds → b ∈ executionResponseIds [e] := by
  cases hs with
  | push n b => exact fun b hb hb' => (hb' (by simp [orderedIds] at hb ⊢; exact .inl hb)).elim
  | @execute r blocks hok =>
    rcases execute_cases p blocks with ⟨-, hex⟩ | ⟨n, o, rest, hp, hlast, hex⟩ <;> rw [hex]
    · exact fun b hb hb' => (hb' hb).elim
    · intro b hb hb'
      simp only [orderedIds, hp, List.map_cons, List.mem_cons] at hb hb'
      obtain rfl := hb.resolve_right hb'
      simp [hok, hlast]
  | @sign r c x rest sig si vote hp =>
    exact fun b hb hb' => (hb' (by simpa [sign_of_cons hp, orderedIds] using hb)).elim
  | signNothing | voteNothing | vote | voteAggregate | tick => exact fun b hb hb' => (hb' hb).elim
  | syncNothing | syncAggregate | syncReconfig => simp [Event.isSyncRequest] at he

/-- **Without a sync, a step requests no execution requested before**, when each execution
response answers a request of its own: a response that executed nothing would be for a block
that had its response already.
Source: `start` (412–433); `advance_execution_root` (154–164)
Kind: L -/
theorem Step.executionRequestIds_fresh (hs : p.Step v au e p' outs) (hi : Invariant p h sent)
    (hn : NotRepeated p h sent) (ha : AdmissibleNoSync sent h e) :
    ∀ b ∈ executionRequestIds outs, b ∉ executionRequestIds sent := by
  have hhead := hs.executionRequestIds_outs
  intro b hb hreq
  cases hs with
  | push n b' =>
    split at hb
    · rename_i hp
      have hnew : b ∈ pushedIds [.orderedBlocks b'] := by
        simpa [executionRequestIds_executionRequests, orderedIds, hp, pushedIds, pushedItems]
          using hb
      exact ha.1.fresh b hnew (hi.executionRequested_pushed b hreq)
    · simp at hb
  | @execute r blocks hok =>
    rcases execute_cases p blocks with ⟨hno, -⟩ | ⟨n, o, rest, hp, -, hex⟩
    · obtain ⟨b0, hb0req, hb0⟩ := ha.1
      have hlast : blocks.getLast?.map (·.id) = some b0 := by simpa [hok] using hb0
      have hnot : b0 ∉ p.orderedIds := by
        have htail := hi.executionRequested_not_tail b0 hb0req
        rcases hq : p.ordered with _ | ⟨⟨n, o⟩, rest⟩
        · simp [orderedIds, hq]
        · simp only [orderedIds, hq, List.map_cons, List.tail_cons] at htail ⊢
          exact fun hm => (List.mem_cons.mp hm).elim (fun h' => hno n o rest hq (h' ▸ hlast)) htail
      have hresp := List.count_pos_iff.mpr
        (hn.responded_of_not_ordered b0 (hi.executionRequested_pushed b0 hb0req) hnot)
      have honce := ha.2.2 b0 (by simp [hok, hlast])
      have hone := List.nodup_iff_count_le_one.mp hn.executionRequested_nodup b0
      omega
    · have h1 := hhead b hb
      rw [hex] at h1
      exact hi.executionRequested_not_tail b hreq
        (by simpa [orderedIds, hp] using List.mem_of_mem_head? h1)
  | syncNothing | syncAggregate | syncReconfig => exact absurd ha.2.1 (by simp [Event.isSyncRequest])
  | signNothing | sign | voteNothing | vote | voteAggregate | tick => simp at hb

end Pipeline

namespace NotRepeated

variable {v : ValidatorVerifier} {au : Author} {p p' : Pipeline} {h : List Event} {e : Event}
  {sent outs : List Output}

/-- Source: `StateManager::new`. Kind: L -/
theorem init : NotRepeated ⟨[], [], []⟩ [] [] :=
  ⟨by simp, by simp [pushedIds, pushedItems]⟩

/-- **No repeated execution request is kept by every step without a sync.**
Source: the arms of `start` (411–445)
Kind: L -/
theorem step (hn : NotRepeated p h sent) (hi : Invariant p h sent) (hs : p.Step v au e p' outs)
    (ha : AdmissibleNoSync sent h e) : NotRepeated p' (h ++ [e]) (sent ++ outs) := by
  refine ⟨?_, ?_⟩
  · rw [executionRequestIds_append, List.nodup_append]
    refine ⟨hn.executionRequested_nodup, hs.executionRequestIds_nodup, ?_⟩
    intro b hb hb'
    exact hs.executionRequestIds_fresh hi hn ha b hb' hb
  · simp only [pushedIds_append, List.mem_append, executionResponseIds_append]
    rintro b (hb | hb) hb'
    · by_cases hold : b ∈ p.orderedIds
      · exact .inr (hs.responded_of_left_ordered ha.2.1 b hold hb')
      · exact .inl (hn.responded_of_not_ordered b hb hold)
    · exact (hb' (hs.pushed_mem_orderedIds b hb)).elim

end NotRepeated

/-- **Every state reached without a sync refines a pipeline that keeps the run invariant and
requests no execution twice.**
Source: `start` (405–449)
Kind: L -/
theorem Reachable.notRepeated {v : ValidatorVerifier} {s : StateManager} {h : List Event}
    (hr : Reachable v AdmissibleNoSync s h) :
    ∃ p, Refines s p ∧ Invariant p h s.sent ∧ NotRepeated p h s.sent := by
  induction hr with
  | init a => exact ⟨⟨[], [], []⟩, ⟨rfl, rfl, rfl⟩, Invariant.init, NotRepeated.init⟩
  | step _ hend ha hok ih =>
    obtain ⟨p, hr, hi, hn⟩ := ih
    obtain ⟨p', outs, hs, hr', hsent⟩ :=
      StateManager.startIteration_step hr hi.wellFormed (hi.ready ha.1) hok
    exact ⟨p', hr', hsent ▸ hi.step hs ha.1, hsent ▸ hn.step hi hs ha⟩

/-- **Without sync requests no block's execution is requested twice**, when each execution
response answers a request of its own. A sync request resets the roots, after which `start`
requests the first Ordered item's execution again.
Source: `advance_execution_root` (154–164); `start` (412–433)
Kind: P -/
theorem reachable_executionRequests_nodup {v : ValidatorVerifier} {s : StateManager}
    {h : List Event} (hr : Reachable v AdmissibleNoSync s h) :
    (executionRequestIds s.sent).Nodup := by
  obtain ⟨p, -, -, hn⟩ := hr.notRepeated
  exact hn.executionRequested_nodup

/-- Three batches at three stages, without a sync: one execution request per batch.
Source: none: witness
Kind: L -/
theorem reachable_executionRequests_nodup_threeStages :
    ∃ s, Reachable quorumOfTwo AdmissibleNoSync s threeStages ∧
      executionRequestIds s.sent = [1, 2, 3] ∧ (executionRequestIds s.sent).Nodup := by
  obtain ⟨s, hr, hids⟩ := @exists_reachable_of_checkRunUnder AdmissibleNoSync _ quorumOfTwo 0
    threeStages (fun s => executionRequestIds s.sent = [1, 2, 3]) _ (by decide)
  exact ⟨s, hr, hids, reachable_executionRequests_nodup hr⟩

/-! ## Execution requests follow the arrival order -/

/-- The execution requests sent, then the Ordered items after the first, are the pushed batches in
arrival order.
Source: `advance_execution_root` (154–164), as `start` calls it
Kind: D -/
def RequestedInOrder (p : Pipeline) (h : List Event) (sent : List Output) : Prop :=
  executionRequestIds sent ++ p.orderedIds.tail = pushedIds h

/-- **Without a sync, a step keeps the execution requests in arrival order**: a push joins the
Ordered run, and is requested at once when it heads it; an execution moves the head out and
requests the next item; a response that executes nothing requests nothing new, since the head was
requested already.
Source: `start` (412–433); `advance_execution_root` (154–164)
Kind: L -/
theorem Pipeline.Step.requestedInOrder {v : ValidatorVerifier} {au : Author} {p p' : Pipeline}
    {h : List Event} {e : Event} {sent outs : List Output} (hs : p.Step v au e p' outs)
    (hi : Invariant p h sent) (hn : NotRepeated p h sent) (ha : AdmissibleNoSync sent h e)
    (ho : RequestedInOrder p h sent) : RequestedInOrder p' (h ++ [e]) (sent ++ outs) := by
  have hfresh := hs.executionRequestIds_fresh hi hn ha
  unfold RequestedInOrder at ho ⊢
  rw [executionRequestIds_append, pushedIds_append, ← ho, List.append_assoc, List.append_assoc]
  congr 1
  cases hs with
  | push n b =>
    by_cases hp : p.ordered = []
    · simp [hp, Pipeline.executionRequestIds_executionRequests, Pipeline.orderedIds,
        Pipeline.push, pushedIds, pushedItems]
    · simp [hp, Pipeline.orderedIds, Pipeline.push, pushedIds, pushedItems,
        List.tail_append_of_ne_nil]
  | @execute r blocks hok =>
    simp only [apply_ite executionRequestIds, executionRequestIds_append,
      Pipeline.executionRequestIds_executionRequests, Pipeline.executionRequestIds_signingRequests,
      executionRequestIds_nil, ite_self, List.append_nil] at hfresh ⊢
    rcases Pipeline.execute_cases p blocks with ⟨-, hex⟩ | ⟨n, o, rest, hp, -, hex⟩ <;>
      rw [hex] at hfresh ⊢
    · cases hh : p.orderedIds.head? with
      | none => simp [pushedIds, pushedItems]
      | some b =>
        exact absurd (hi.executionRoot_requested b hh) (hfresh b (by simp [hh]))
    · cases rest <;> simp [Pipeline.orderedIds, hp, pushedIds, pushedItems]
  | syncNothing | syncAggregate | syncReconfig =>
    exact absurd ha.2.1 (by simp [Event.isSyncRequest])
  | @sign r c x rest sig si vote hp =>
    simp [Pipeline.sign_of_cons hp, Pipeline.orderedIds, pushedIds, pushedItems]
  | signNothing | voteNothing | vote | voteAggregate | tick =>
    simp [Pipeline.orderedIds, pushedIds, pushedItems, Output.executionRequestId?]

/-- Every state reached without a sync refines a pipeline whose execution requests are in arrival
order.
Source: `start` (405–449)
Kind: L -/
theorem Reachable.requestedInOrder {v : ValidatorVerifier} {s : StateManager} {h : List Event}
    (hr : Reachable v AdmissibleNoSync s h) : ∃ p, Refines s p ∧ RequestedInOrder p h s.sent := by
  obtain ⟨p, hp, -, -, ho⟩ := hr.invariant_with (Q := fun p h sent =>
      NotRepeated p h sent ∧ RequestedInOrder p h sent) And.left ⟨NotRepeated.init, rfl⟩
    fun hi hq hs ha => ⟨hq.1.step hi hs ha, hs.requestedInOrder hi hq.1 ha hq.2⟩
  exact ⟨p, hp, ho⟩

/-- **Without sync requests the execution phase is asked for the batches in arrival order**, when
each execution response answers a request of its own: the block ids of the execution requests
sent so far are a prefix of those of the batches received, in arrival order. A batch is named by
its block id, which `Admissible` makes fresh, so the requests are for the first batches, in
order, one per batch, with none skipped.
Source: `advance_execution_root` (154–164); `process_ordered_blocks` (140–150); `start` (412–433)
Kind: P -/
theorem reachable_executionRequests_in_order {v : ValidatorVerifier} {s : StateManager}
    {h : List Event} (hr : Reachable v AdmissibleNoSync s h) :
    executionRequestIds s.sent <+: pushedIds h := by
  obtain ⟨p, -, ho⟩ := hr.requestedInOrder
  exact ⟨_, ho⟩

/-- Three batches, the first executed: the first two were requested, the third waits behind
the second. Source: none: witness. Kind: L -/
theorem reachable_executionRequests_in_order_firstExecuted :
    ∃ s, Reachable quorumOfTwo AdmissibleNoSync s [.orderedBlocks (batch 1),
        .orderedBlocks (batch 2), .orderedBlocks (batch 3), .executionResponse (executedBatch 1)] ∧
      executionRequestIds s.sent = [1, 2] ∧
      pushedIds [.orderedBlocks (batch 1), .orderedBlocks (batch 2), .orderedBlocks (batch 3),
        .executionResponse (executedBatch 1)] = [1, 2, 3] ∧
      executionRequestIds s.sent <+: pushedIds [.orderedBlocks (batch 1),
        .orderedBlocks (batch 2), .orderedBlocks (batch 3), .executionResponse (executedBatch 1)] := by
  obtain ⟨s, hr, hids⟩ := @exists_reachable_of_checkRunUnder AdmissibleNoSync _ quorumOfTwo 0
    [.orderedBlocks (batch 1), .orderedBlocks (batch 2), .orderedBlocks (batch 3),
      .executionResponse (executedBatch 1)] (fun s => executionRequestIds s.sent = [1, 2]) _
    (by decide)
  exact ⟨s, hr, hids, rfl, reachable_executionRequests_in_order hr⟩

/-! ## Every sync request is acknowledged once -/

/-- A step acknowledges its sync request once and sends no other ack.
Source: `process_sync_request` (280–281); the arms of `start` (411–445)
Kind: L -/
theorem Pipeline.Step.count_syncAck {v : ValidatorVerifier} {au : Author} {p p' : Pipeline}
    {e : Event} {outs : List Output} (hs : p.Step v au e p' outs) :
    outs.count .syncAck = if e.isSyncRequest then 1 else 0 := by
  cases hs <;>
    simp [Event.isSyncRequest, apply_ite (List.count Output.syncAck), List.count_eq_zero]

/-- **Every sync request is acknowledged exactly once**: in every reachable state the manager has
sent one ack per sync request it consumed, reconfiguring or not, and no other ack.
Source: `process_sync_request` (246–282); `start` (418–426)
Kind: P -/
theorem reachable_syncRequests_acked_once {v : ValidatorVerifier} {s : StateManager}
    {h : List Event} (hr : Reachable v Admissible s h) :
    s.sent.count .syncAck = h.countP Event.isSyncRequest := by
  obtain ⟨p, -, -, hcount⟩ := hr.invariant_with id
    (Q := fun _ h sent => sent.count .syncAck = h.countP Event.isSyncRequest) rfl
    fun _ hcount hs _ => by
      dsimp only at hcount ⊢
      rw [List.count_append, hcount, hs.count_syncAck, List.countP_append]
      simp [List.countP_cons]
  exact hcount

/-- Two sync requests around a batch, each acknowledged. Source: none: witness. Kind: L -/
theorem reachable_syncRequests_acked_once_twice :
    ∃ s, Reachable quorumOfTwo Admissible s
        [.syncRequest (syncTo 1), .orderedBlocks (batch 1), .syncRequest (syncTo 1)] ∧
      s.sent.count .syncAck = [Event.syncRequest (syncTo 1), .orderedBlocks (batch 1),
        .syncRequest (syncTo 1)].countP Event.isSyncRequest := by
  obtain ⟨s, hr, -⟩ := @exists_reachable_of_checkRun quorumOfTwo 0
    [.syncRequest (syncTo 1), .orderedBlocks (batch 1), .syncRequest (syncTo 1)]
    (fun s => s.sent.count .syncAck = 2) _ (by decide)
  exact ⟨s, hr, reachable_syncRequests_acked_once hr⟩

end BufferManager
