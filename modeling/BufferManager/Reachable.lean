import BufferManager.Run

/-!
# The states the loop reaches

`Reachable v adm s h`: the loop of `start`, from `StateManager::new`, has consumed the events `h`,
each one `adm` allowed, and is in state `s`. Every reachable state refines a pipeline that keeps
the run invariant (`Reachable.invariant`), and any further invariant that every step keeps
(`Reachable.invariant_with`); the theorems below read them back on the state itself.

* **`reachable_refines_pipeline`** — the buffer is a run of Signed items, then Executed, then
  Ordered; the roots are the first Executed and the first Ordered item; every request a turn sends
  is the request of the first Ordered or Executed item after the turn.
* **`reachable_handles_admissible`** — every admissible event but a tick is handled without a
  fault (a failed execution response, not admissible, always faults); **`reachable_tick`** — a tick re-broadcasts the Signed items' votes, or reaches
  `unreachable!()` exactly when an Ordered item is buffered and no Executed one
  (`tick_unreachable_after_first_batch`: one batch, then a tick).
* **`reachable_persisted_conserves_pushed`** — the popped items, pop after pop, then the buffer,
  are the pushed items in arrival order, and each persisting request is one pop's.
* **`reachable_persisting_request_certified`** — a turn sends at most one persisting request: the
  buffer from the head through the item that the turn's commit vote or sync ledger info made
  Aggregated (`Event.Aggregates`), under that item's new proof, which commits the request's last
  block; the items before it may be popped in another state
  (`commitVote_persists_signed_predecessor`).
  **`reachable_persisted_ledgerInfo_certified`** — that proof is certified: a quorum of
  signatures, or a ledger info the verifier accepted.
* **`reachable_responses_applied`** — an admissible execution or signing response never faults and
  advances the item of its block.
* **`reachable_syncRequest_cases`** — a sync request without reconfiguration persists through the
  item it aggregates, or leaves buffer and roots as they were; it is acknowledged once.
* **`reachable_buffer_full_distinct`** — every slot holds an item and the block ids are distinct:
  `advance_head`'s precondition; this rests on batches arriving once, since a replayed batch is
  buffered again (**`reachable_replayed_batch_buffered_twice`**).
* `Reachable.start_computes` — `Reachable` is the loop of `start`: every reachable state is what
  `start` computes on the events consumed. **`reachable_reconfig_ends_epoch`** — a
  reconfiguration sets `end_epoch` with the buffer intact, and the loop stops;
  **`start_stops_at_reconfig`** — on every state and every run, no event after a reconfiguring
  sync request is read.
-/

namespace BufferManager

/-- The states the loop of `start` reaches from `StateManager::new`, with the events consumed,
oldest first: each turn runs while `end_epoch` is unset, on an event `adm` allows, and returns.
Source: `start` (405–449)
Kind: D -/
inductive Reachable (v : ValidatorVerifier) (adm : List Output → List Event → Event → Prop) :
    StateManager → List Event → Prop
  /-- `StateManager::new`. -/
  | init (author : Author) : Reachable v adm (StateManager.new author) []
  /-- One turn of the loop. -/
  | step {s s' : StateManager} {h : List Event} {e : Event} (hs : Reachable v adm s h)
      (hend : s.endEpoch = false) (ha : adm s.sent h e) (hok : s.startIteration v e = .ok s') :
      Reachable v adm s' (h ++ [e])

/-- The loop on a list of events, each checked against the environment `adm` before it is
handled: the state it reaches, or `none` if an event is not allowed, the epoch has ended, or a
handler faults.
Source: `start` (405–449), with the environment's guarantees checked
Kind: D -/
def checkRunUnder (adm : List Output → List Event → Event → Prop)
    [∀ sent h e, Decidable (adm sent h e)] (v : ValidatorVerifier) :
    StateManager → List Event → List Event → Option StateManager
  | s, _, [] => some s
  | s, h, e :: es =>
    if s.endEpoch = false ∧ adm s.sent h e then
      match s.startIteration v e with
      | .ok s' => checkRunUnder adm v s' (h ++ [e]) es
      | .error _ => none
    else none

/-- The loop on a list of events, each checked admissible before it is handled.
Source: `start` (405–449), with the environment's guarantees checked
Kind: D -/
def checkRun (v : ValidatorVerifier) : StateManager → List Event → List Event → Option StateManager :=
  checkRunUnder Admissible v

/-- A checked run of one more event: the turn runs before the end of the epoch, on an admissible
event, and returns; the rest of the run starts from its state.
Source: none: infrastructure
Kind: L -/
theorem checkRun_cons_eq_some {v : ValidatorVerifier} {s s' : StateManager} {h : List Event}
    {e : Event} {es : List Event} (hc : checkRun v s h (e :: es) = some s') :
    ∃ s'', s.endEpoch = false ∧ Admissible s.sent h e ∧ s.startIteration v e = .ok s'' ∧
      checkRun v s'' (h ++ [e]) es = some s' := by
  simp only [checkRun, checkRunUnder] at hc
  split_ifs at hc with hg
  split at hc
  · exact ⟨_, hg.1, hg.2, ‹_›, hc⟩
  · cases hc

/-- A turn that runs before the end of the epoch, on an admissible event, and returns, hands the
rest of the checked run to its state.
Source: none: infrastructure
Kind: L -/
theorem checkRun_cons_of_ok {v : ValidatorVerifier} {s s' : StateManager} {h : List Event}
    {e : Event} (es : List Event) (hend : s.endEpoch = false) (ha : Admissible s.sent h e)
    (hok : s.startIteration v e = .ok s') :
    checkRun v s h (e :: es) = checkRun v s' (h ++ [e]) es := by
  simp [checkRun, checkRunUnder, hend, ha, hok]

/-- A checked run in two parts: the second starts where the first ended.
Source: none: infrastructure
Kind: L -/
theorem checkRun_append_of_eq_some {v : ValidatorVerifier} {s s' : StateManager} {h : List Event}
    {es : List Event} (es' : List Event) (hc : checkRun v s h es = some s') :
    checkRun v s h (es ++ es') = checkRun v s' (h ++ es) es' := by
  induction es generalizing s h with
  | nil =>
    cases hc
    simp
  | cons e es ih =>
    obtain ⟨s'', hend, ha, hok, hc⟩ := checkRun_cons_eq_some hc
    rw [List.cons_append, checkRun_cons_of_ok _ hend ha hok, ih hc, List.append_assoc,
      List.singleton_append]

namespace Reachable

variable {v : ValidatorVerifier} {s : StateManager} {h : List Event}

/-- A run checked against `adm` from a reachable state reaches a reachable state.
Source: none: infrastructure
Kind: L -/
theorem of_checkRunUnder {adm : List Output → List Event → Event → Prop}
    [∀ sent h e, Decidable (adm sent h e)] {es : List Event} {s' : StateManager}
    (hr : Reachable v adm s h) (hc : checkRunUnder adm v s h es = some s') :
    Reachable v adm s' (h ++ es) := by
  induction es generalizing s h with
  | nil =>
    cases hc
    simpa using hr
  | cons e es ih =>
    simp only [checkRunUnder] at hc
    split_ifs at hc with hg
    split at hc
    · simpa using ih (hr.step hg.1 hg.2 ‹_›) hc
    · cases hc

/-- A checked run from a reachable state reaches a reachable state.
Source: none: infrastructure
Kind: L -/
theorem of_checkRun {es : List Event} {s' : StateManager} (hr : Reachable v Admissible s h)
    (hc : checkRun v s h es = some s') : Reachable v Admissible s' (h ++ es) :=
  hr.of_checkRunUnder hc

/-- **Every reachable state refines a pipeline that keeps the run invariant.**
Source: `start` (405–449)
Kind: L -/
theorem invariant (hr : Reachable v Admissible s h) : ∃ p, Refines s p ∧ Invariant p h s.sent := by
  induction hr with
  | init a => exact ⟨⟨[], [], []⟩, ⟨rfl, rfl, rfl⟩, Invariant.init⟩
  | step _ hend ha hok ih =>
    obtain ⟨p, hr, hi⟩ := ih
    obtain ⟨p', outs, hs, hr', hsent⟩ :=
      StateManager.startIteration_step hr hi.wellFormed (hi.ready ha) hok
    exact ⟨p', hr', hsent ▸ hi.step hs ha⟩

/-- **A run invariant that every admissible step keeps holds in every reachable state**, with the
pipeline invariant its steps may rely on: the induction over the loop, done once for any invariant
`Q` and any environment `adm` that allows only admissible events.
Source: `start` (405–449)
Kind: L -/
theorem invariant_with {adm : List Output → List Event → Event → Prop}
    (hadm : ∀ {sent h e}, adm sent h e → Admissible sent h e)
    {Q : Pipeline → List Event → List Output → Prop} (hinit : Q ⟨[], [], []⟩ [] [])
    (hstep : ∀ {au p p' h e sent outs}, Invariant p h sent → Q p h sent →
      p.Step v au e p' outs → adm sent h e → Q p' (h ++ [e]) (sent ++ outs))
    (hr : Reachable v adm s h) : ∃ p, Refines s p ∧ Invariant p h s.sent ∧ Q p h s.sent := by
  induction hr with
  | init a => exact ⟨⟨[], [], []⟩, ⟨rfl, rfl, rfl⟩, Invariant.init, hinit⟩
  | step _ hend ha hok ih =>
    obtain ⟨p, hr, hi, hq⟩ := ih
    obtain ⟨p', outs, hs, hr', hsent⟩ :=
      StateManager.startIteration_step hr hi.wellFormed (hi.ready (hadm ha)) hok
    exact ⟨p', hr', hsent ▸ hi.step hs (hadm ha), hsent ▸ hstep hi hq hs ha⟩

/-- One admissible turn from a reachable state is one step of the pipeline the state refines.
Source: `start` (405–449)
Kind: L -/
theorem turn {e : Event} {s' : StateManager} (hr : Reachable v Admissible s h)
    (ha : Admissible s.sent h e) (hok : s.startIteration v e = .ok s') :
    ∃ p p' outs, Refines s p ∧ Invariant p h s.sent ∧ p.Step v s.author e p' outs ∧ Refines s' p' := by
  obtain ⟨p, hp, hi⟩ := hr.invariant
  obtain ⟨p', outs, hs, hp', -⟩ := StateManager.startIteration_step hp hi.wellFormed (hi.ready ha) hok
  exact ⟨p, p', outs, hp, hi, hs, hp'⟩

end Reachable

/-- A run from `StateManager::new` checked against `adm` whose final state passes a decidable test
gives a state reachable under `adm` that satisfies it. Source: none: infrastructure. Kind: L -/
theorem exists_reachable_of_checkRunUnder {adm : List Output → List Event → Event → Prop}
    [∀ sent h e, Decidable (adm sent h e)] {v : ValidatorVerifier} {a : Author} {es : List Event}
    {P : StateManager → Prop} [DecidablePred P]
    (hc : (checkRunUnder adm v (StateManager.new a) [] es).map (fun s => decide (P s)) = some true) :
    ∃ s, Reachable v adm s es ∧ P s := by
  rcases hrun : checkRunUnder adm v (StateManager.new a) [] es with _ | s
  · simp [hrun] at hc
  · simp only [hrun, Option.map_some', Option.some.injEq, decide_eq_true_eq] at hc
    exact ⟨s, by simpa using (Reachable.init a).of_checkRunUnder hrun, hc⟩

/-- A checked run from `StateManager::new` whose final state passes a decidable test gives a
reachable state that satisfies it. Source: none: infrastructure. Kind: L -/
theorem exists_reachable_of_checkRun {v : ValidatorVerifier} {a : Author} {es : List Event}
    {P : StateManager → Prop} [DecidablePred P]
    (hc : (checkRun v (StateManager.new a) [] es).map (fun s => decide (P s)) = some true) :
    ∃ s, Reachable v Admissible s es ∧ P s :=
  exists_reachable_of_checkRunUnder hc

/-- A checked run from `StateManager::new`, then one more turn on an admissible event that
returns, whose two states pass a decidable test: a reachable state, the turn and the test.
Source: none: infrastructure
Kind: L -/
theorem exists_turn_of_checkRun {v : ValidatorVerifier} {a : Author} {es : List Event} {e : Event}
    {P : StateManager → StateManager → Prop} [∀ s s', Decidable (P s s')]
    (hc : (checkRun v (StateManager.new a) [] es).bind (fun s =>
      if Admissible s.sent es e then (s.startIteration v e).toOption.map (fun s' => decide (P s s'))
      else none) = some true) :
    ∃ s s', Reachable v Admissible s es ∧ Admissible s.sent es e ∧
      s.startIteration v e = .ok s' ∧ P s s' := by
  rcases hrun : checkRun v (StateManager.new a) [] es with _ | s
  · simp [hrun] at hc
  rw [hrun, Option.some_bind] at hc
  split_ifs at hc with ha
  rcases hok : s.startIteration v e with f | s'
  · simp [hok, Except.toOption] at hc
  · simp only [hok, Except.toOption, Option.map_some', Option.some.injEq, decide_eq_true_eq] at hc
    exact ⟨s, s', by simpa using (Reachable.init a).of_checkRun hrun, ha, hok, hc⟩

/-! ## Reading a refinement back on the state -/

section Refines

variable {s : StateManager} {p : Pipeline}

/-- Source: none: infrastructure. Kind: L -/
theorem Refines.mem_slots (hr : Refines s p) {n : Nat} {x : BufferItem} (h : (n, x) ∈ p.items) :
    ⟨n, some x⟩ ∈ s.buffer.slots := by
  rw [hr.slots]
  exact List.mem_map_of_mem Slot.full h

/-- Source: none: infrastructure. Kind: L -/
theorem Refines.lookup (hr : Refines s p) {n : Nat} {x : BufferItem} (h : (n, x) ∈ p.items) :
    s.buffer.lookup n = some (some x) :=
  LinkedList.lookup_of_mem (hr.mem_slots h)

/-- Source: none: infrastructure. Kind: L -/
theorem Refines.mem_items (hr : Refines s p) {n : Nat} {x : BufferItem}
    (h : ⟨n, some x⟩ ∈ s.buffer.slots) : (n, x) ∈ p.items := by
  rw [hr.slots] at h
  obtain ⟨⟨m, y⟩, hy, he⟩ := List.mem_map.mp h
  simp only [Slot.full, Slot.mk.injEq, Option.some.injEq] at he
  rwa [← he.1, ← he.2]

/-- Source: none: infrastructure. Kind: L -/
theorem Refines.elems (hr : Refines s p) : s.buffer.slots.filterMap Slot.elem = p.items.map Prod.snd := by
  rw [hr.slots, LinkedList.filterMap_elem_map_full]

/-- The block ids of the buffer are those of the pipeline. Source: none: infrastructure. Kind: L -/
theorem Refines.blockIds (hr : Refines s p) :
    (s.buffer.slots.filterMap Slot.elem).map BufferItem.blockId = p.ids := by
  rw [hr.elems, List.map_map]
  rfl

end Refines

/-- The first element of a list is the one whose key is not among the keys of the others.
Source: none: infrastructure
Kind: L -/
theorem eq_cons_of_not_mem_tail {α β : Type} {f : α → β} {l : List α} {x : α} (hx : x ∈ l)
    (ht : f x ∉ (l.map f).tail) : l = x :: l.tail := by
  cases l with
  | nil => simp at hx
  | cons y ys =>
    rcases List.mem_cons.mp hx with rfl | hx
    · rfl
    · exact absurd (List.mem_map_of_mem f hx) (by simpa using ht)

/-- Source: none: infrastructure. Kind: L -/
theorem Pipeline.mem_ordered_of_mem_items {p : Pipeline} {c : Nat} {o : OrderedItem}
    (h : (c, .ordered o) ∈ p.items) : (c, o) ∈ p.ordered := by
  simpa [Pipeline.items] using h

/-- Source: none: infrastructure. Kind: L -/
theorem Pipeline.mem_executed_of_mem_items {p : Pipeline} {c : Nat} {e : ExecutedItem}
    (h : (c, .executed e) ∈ p.items) : (c, e) ∈ p.executed := by
  simpa [Pipeline.items] using h

/-! ## Concrete inputs -/

/-- A validator set in which two votes are a quorum and every signature verifies.
Source: none: a concrete verifier
Kind: D -/
def quorumOfTwo : ValidatorVerifier :=
  ⟨fun _ _ _ => true, fun authors => decide (2 ≤ authors.length), fun _ => true⟩

/-- A batch of one block of id `n`, with callback `n`. Source: none: a concrete input. Kind: D -/
def batch (n : Nat) : OrderedBlocks := ⟨[⟨n, 0⟩], List.cons_ne_nil _ _, ⟨⟨⟨0, 0⟩, 0⟩, []⟩, n⟩

/-- The execution phase's answer for `batch n`. Source: none: a concrete input. Kind: D -/
def executedBatch (n : Nat) : ExecutionResponse := ⟨.ok [⟨n, n + 10⟩]⟩

/-- The signing phase's answer for `batch n`, signed `n`. Source: none: a concrete input. Kind: D -/
def signedBatch (n : Nat) : SigningResponse := ⟨.ok n, ⟨⟨n, n + 10⟩, 0⟩⟩

/-- The commit vote of `author` for `batch n`. Source: none: a concrete input. Kind: D -/
def voteFor (n : Nat) (author : Author) : CommitVote := ⟨author, ⟨⟨n, n + 10⟩, 0⟩, author⟩

/-- Two batches, executed and signed in order. Source: none: a concrete input. Kind: D -/
def twoSignedBatches : List Event :=
  [.orderedBlocks (batch 1), .orderedBlocks (batch 2), .executionResponse (executedBatch 1),
   .executionResponse (executedBatch 2), .signingResponse (signedBatch 1),
   .signingResponse (signedBatch 2)]

/-- Three batches, the first signed, the second executed, the third only ordered.
Source: none: a concrete input
Kind: D -/
def threeStages : List Event :=
  [.orderedBlocks (batch 1), .orderedBlocks (batch 2), .orderedBlocks (batch 3),
   .executionResponse (executedBatch 1), .executionResponse (executedBatch 2),
   .signingResponse (signedBatch 1)]

/-- Two signed batches, then the vote of validator `1` on the first, which brings it to the
quorum: it is persisted, the second stays Signed. Source: none: a concrete input. Kind: D -/
def firstPersisted : List Event := twoSignedBatches ++ [.commitMessage (.commitVote (voteFor 1 1))]

/-- After `threeStages` the buffer holds a Signed, an Executed and an Ordered item, with the
signing root on the Executed one and the execution root on the Ordered one.
Source: none: witness
Kind: L -/
theorem reachable_threeStages :
    ∃ s, Reachable quorumOfTwo Admissible s threeStages ∧
      (∃ si e o, s.buffer.slots =
        [⟨0, some (.signed si)⟩, ⟨1, some (.executed e)⟩, ⟨2, some (.ordered o)⟩]) ∧
      s.signingRoot = some 1 ∧ s.executionRoot = some 2 := by
  obtain ⟨s, hr, hbuf, hroots⟩ := @exists_reachable_of_checkRun quorumOfTwo 0 threeStages
    (fun s => (match s.buffer.slots with
      | [⟨0, some (.signed _)⟩, ⟨1, some (.executed _)⟩, ⟨2, some (.ordered _)⟩] => true
      | _ => false) = true ∧ s.signingRoot = some 1 ∧ s.executionRoot = some 2) _ (by decide)
  refine ⟨s, hr, ?_, hroots⟩
  split at hbuf
  · exact ⟨_, _, _, ‹_›⟩
  · cases hbuf

/-! ## The buffer invariant -/

variable {v : ValidatorVerifier} {s : StateManager} {h : List Event}

/-- **The buffer of every reachable state is a pipeline**: a run of Signed items, then of Executed
items, then of Ordered items, none Aggregated, with `execution_root` on the first Ordered item and
`signing_root` on the first Executed one (`None` when there is none); and every execution or
signing request a turn sends is the request of the first Ordered or Executed item after it.
Source: `start` (405–449); `advance_execution_root`, `advance_signing_root` (152–193)
Kind: P -/
theorem reachable_refines_pipeline (hr : Reachable v Admissible s h) :
    (∃ p : Pipeline, Refines s p) ∧
    ∀ e s', Admissible s.sent h e → s.startIteration v e = .ok s' →
      ∃ p' outs, Refines s' p' ∧ s'.sent = s.sent ++ outs ∧
        ∀ o ∈ outs, o.isRequest = true → o ∈ p'.executionRequests ∨ o ∈ p'.signingRequests := by
  obtain ⟨p, hp, hi⟩ := hr.invariant
  refine ⟨⟨p, hp⟩, fun e s' ha hok => ?_⟩
  obtain ⟨p', outs, hs, hp', hsent⟩ :=
    StateManager.startIteration_step hp hi.wellFormed (hi.ready ha) hok
  exact ⟨p', outs, hp', hsent, hs.requests_mem⟩

/-- Three batches at three stages: the buffer is a Signed, an Executed and an Ordered item, and
every admissible event leads to a pipeline again. Source: none: witness. Kind: L -/
theorem reachable_refines_pipeline_threeStages :
    ∃ s, Reachable quorumOfTwo Admissible s threeStages ∧
      (∃ si e o, s.buffer.slots =
        [⟨0, some (.signed si)⟩, ⟨1, some (.executed e)⟩, ⟨2, some (.ordered o)⟩]) ∧
      (∃ p : Pipeline, Refines s p) ∧
      ∀ e s', Admissible s.sent threeStages e → s.startIteration quorumOfTwo e = .ok s' →
        ∃ p' outs, Refines s' p' ∧ s'.sent = s.sent ++ outs ∧
          ∀ o ∈ outs, o.isRequest = true → o ∈ p'.executionRequests ∨ o ∈ p'.signingRequests := by
  obtain ⟨s, hr, hbuf, -⟩ := reachable_threeStages
  exact ⟨s, hr, hbuf, reachable_refines_pipeline hr⟩

/-- **`advance_head`'s precondition holds in every reachable state**: every slot of the buffer
holds an item, and the items' block ids are pairwise distinct. These are the hypotheses of
`StateManager.advanceHead_pops_through_target`.
Source: `process_ordered_blocks` (140–150); `advance_head` (197–232)
Kind: P -/
theorem reachable_buffer_full_distinct (hr : Reachable v Admissible s h) :
    (∀ sl ∈ s.buffer.slots, sl.elem.isSome) ∧
    ((s.buffer.slots.filterMap Slot.elem).map BufferItem.blockId).Nodup := by
  obtain ⟨p, hp, hi⟩ := hr.invariant
  refine ⟨fun sl hsl => ?_, ?_⟩
  · obtain ⟨x, -, rfl⟩ := List.mem_map.mp (hp.slots ▸ hsl)
    rfl
  · rw [hp.elems, List.map_map]
    exact hi.wellFormed.ids_nodup

/-- Three batches at three stages fill three slots with three distinct block ids.
Source: none: witness
Kind: L -/
theorem reachable_buffer_full_distinct_threeStages :
    ∃ s, Reachable quorumOfTwo Admissible s threeStages ∧
      (s.buffer.slots.filterMap Slot.elem).map BufferItem.blockId = [1, 2, 3] ∧
      (∀ sl ∈ s.buffer.slots, sl.elem.isSome) ∧
      ((s.buffer.slots.filterMap Slot.elem).map BufferItem.blockId).Nodup := by
  obtain ⟨s, hr, hids⟩ := @exists_reachable_of_checkRun quorumOfTwo 0 threeStages
    (fun s => (s.buffer.slots.filterMap Slot.elem).map BufferItem.blockId = [1, 2, 3]) _
    (by decide)
  exact ⟨s, hr, hids, reachable_buffer_full_distinct hr⟩

/-- **A replayed batch is neither rejected nor merged**: in every reachable state, ordered blocks
whose block is already buffered are handled without a fault and pushed again, so that the buffer
then holds the block twice. The distinct block ids of `reachable_buffer_full_distinct` rest on
consensus never delivering a batch twice (`Admissible`).
Source: `process_ordered_blocks` (140–150); `start` (412–417)
Kind: P -/
theorem reachable_replayed_batch_buffered_twice (hr : Reachable v Admissible s h)
    {b : OrderedBlocks}
    (hdup : b.toItem.blockId ∈ (s.buffer.slots.filterMap Slot.elem).map BufferItem.blockId) :
    ∃ s', s.startIteration v (.orderedBlocks b) = .ok s' ∧
      ((s'.buffer.slots.filterMap Slot.elem).map BufferItem.blockId).count
        b.toItem.blockId = 2 := by
  obtain ⟨p, hp, hi⟩ := hr.invariant
  have hnodup : ((s.buffer.slots.filterMap Slot.elem).map BufferItem.blockId).Nodup := by
    rw [hp.elems, List.map_map]
    exact hi.wellFormed.ids_nodup
  refine ⟨_, (StateManager.startIteration_orderedBlocks hp b).1, ?_⟩
  simp only [LinkedList.pushBack_slots, List.filterMap_append, List.map_append, List.count_append,
    List.count_eq_one_of_mem hnodup hdup]
  simp [Slot.elem]

/-- The first batch, delivered twice. Source: none: witness. Kind: L -/
theorem reachable_replayed_batch_buffered_twice_batch :
    ∃ s, Reachable quorumOfTwo Admissible s [.orderedBlocks (batch 1)] ∧
      (batch 1).toItem.blockId ∈ (s.buffer.slots.filterMap Slot.elem).map BufferItem.blockId ∧
      ∃ s', s.startIteration quorumOfTwo (.orderedBlocks (batch 1)) = .ok s' ∧
        ((s'.buffer.slots.filterMap Slot.elem).map BufferItem.blockId).count
          (batch 1).toItem.blockId = 2 := by
  obtain ⟨s, hr, hdup⟩ := @exists_reachable_of_checkRun quorumOfTwo 0 [.orderedBlocks (batch 1)]
    (fun s => (batch 1).toItem.blockId ∈
      (s.buffer.slots.filterMap Slot.elem).map BufferItem.blockId)
    _ (by decide)
  exact ⟨s, hr, hdup, reachable_replayed_batch_buffered_twice hr hdup⟩

/-! ## Faults -/

/-- **No admissible event but a tick makes a reachable state fault**: the `unwrap`s, `assert!`s and
`unreachable!()`s of the handlers are never reached. The documented fatal
`expect("Execution failure")` is outside the environment: a failed execution response is not
admissible, and it faults in every state (`StateManager.startIteration_executionResponse_error`).
Source: `start` (409–447) and the handlers it calls
Kind: P -/
theorem reachable_handles_admissible (hr : Reachable v Admissible s h) {e : Event}
    (ha : Admissible s.sent h e) (he : e ≠ .tick) : ∃ s', s.startIteration v e = .ok s' := by
  obtain ⟨p, hp, hi⟩ := hr.invariant
  have hready := hi.ready ha
  cases e with
  | orderedBlocks b => exact ⟨_, (StateManager.startIteration_orderedBlocks hp b).1⟩
  | syncRequest r =>
    cases hrc : r.reconfig
    · obtain ⟨s', hok, -⟩ := StateManager.startIteration_syncRequest (v := v) hp hi.wellFormed hrc
      exact ⟨s', hok⟩
    · exact ⟨_, StateManager.startIteration_syncRequest_reconfig hp hi.wellFormed hrc⟩
  | executionResponse r =>
    obtain ⟨b, -, hb⟩ := ha
    rcases hin : r.inner with err | blocks
    · simp [hin] at hb
    obtain ⟨b', hb', htail⟩ := hready blocks hin
    obtain ⟨s', hok, -⟩ := StateManager.startIteration_executionResponse (v := v) hp hin hb' htail
    exact ⟨s', hok⟩
  | signingResponse r =>
    rcases StateManager.startIteration_signingResponse (v := v) hp hi.wellFormed hready.1 hready.2
      with ⟨-, s', hok, -⟩ | ⟨-, -, -, -, -, -, -, -, -, -, s', hok, -⟩
    · exact ⟨s', hok⟩
    · exact ⟨s', hok⟩
  | commitMessage m =>
    cases m with
    | other => exact absurd rfl ha
    | commitVote vote =>
      obtain ⟨s', hok, -⟩ := StateManager.startIteration_commitVote (v := v) hp hi.wellFormed vote
      exact ⟨s', hok⟩
  | tick => exact absurd rfl he

/-- With three batches at three stages, the execution response for the third is handled.
Source: none: witness
Kind: L -/
theorem reachable_handles_admissible_threeStages :
    ∃ s, Reachable quorumOfTwo Admissible s threeStages ∧
      Admissible s.sent threeStages (.executionResponse (executedBatch 3)) ∧
      Event.executionResponse (executedBatch 3) ≠ .tick ∧
      ∃ s', s.startIteration quorumOfTwo (.executionResponse (executedBatch 3)) = .ok s' := by
  obtain ⟨s, hr, ha⟩ := @exists_reachable_of_checkRun quorumOfTwo 0 threeStages
    (fun s => Admissible s.sent threeStages (.executionResponse (executedBatch 3))) _ (by decide)
  exact ⟨s, hr, ha, by simp, reachable_handles_admissible hr ha (by simp)⟩

/-- **A tick in a reachable state** re-broadcasts the commit votes of the Signed items, in buffer
order, and changes nothing else; or, when an Ordered item is buffered and no Executed one (the
signing root is `None`, so the loop walks past the Signed items), it reaches `unreachable!()`.
Source: `retry_broadcasting_commit_votes` (377–403); `start` (443–445)
Kind: P -/
theorem reachable_tick (hr : Reachable v Admissible s h) :
    ∃ p : Pipeline, Refines s p ∧
      s.startIteration v .tick =
        if p.executed = [] ∧ p.ordered ≠ [] then .error (.unreachable "")
        else .ok { s with sent := s.sent ++ p.signed.map fun x => .commitVote x.2.commitVote } := by
  obtain ⟨p, hp, -⟩ := hr.invariant
  exact ⟨p, hp, StateManager.startIteration_tick hp⟩

/-- With three batches at three stages, a tick re-broadcasts the Signed item's vote.
Source: none: witness
Kind: L -/
theorem reachable_tick_threeStages :
    ∃ s, Reachable quorumOfTwo Admissible s threeStages ∧
      (∃ si e o, s.buffer.slots =
        [⟨0, some (.signed si)⟩, ⟨1, some (.executed e)⟩, ⟨2, some (.ordered o)⟩]) ∧
      ∃ p : Pipeline, Refines s p ∧
        s.startIteration quorumOfTwo .tick =
          if p.executed = [] ∧ p.ordered ≠ [] then .error (.unreachable "")
          else .ok { s with sent := s.sent ++ p.signed.map fun x => .commitVote x.2.commitVote } := by
  obtain ⟨s, hr, hbuf, -⟩ := reachable_threeStages
  exact ⟨s, hr, hbuf, reachable_tick hr⟩

/-- **One batch, then a tick, reaches `unreachable!()`**: the batch is Ordered, nothing is
Executed, so the signing root is `None` and the retry loop walks onto the Ordered item.
Source: `retry_broadcasting_commit_votes` (396–398)
Kind: P -/
theorem tick_unreachable_after_first_batch :
    (∃ s, Reachable quorumOfTwo Admissible s [.orderedBlocks (batch 1)] ∧
      s.startIteration quorumOfTwo .tick = .error (.unreachable "")) ∧
    StateManager.start quorumOfTwo (StateManager.new 0) [.orderedBlocks (batch 1), .tick] =
      .error (.unreachable "") :=
  ⟨exists_reachable_of_checkRun (a := 0)
    (P := fun s => s.startIteration quorumOfTwo .tick = .error (.unreachable "")) (by decide),
   by decide⟩

/-! ## The loop and the end of the epoch -/

/-- `Reachable` is the loop of `start`: every reachable state is the one the loop computes from
`StateManager::new` on the events consumed, whatever the environment allowed.
Source: `start` (405–449)
Kind: L -/
theorem Reachable.start_computes {adm : List Output → List Event → Event → Prop}
    (hr : Reachable v adm s h) : ∃ a, StateManager.start v (StateManager.new a) h = .ok s := by
  induction hr with
  | init a => exact ⟨a, rfl⟩
  | step _ hend _ hok ih =>
    obtain ⟨a, ha⟩ := ih
    exact ⟨a, by simp [StateManager.start_append_singleton, ha, hend, hok]⟩

/-- A sync request to the ledger info of `batch n` that reconfigures. Source: none: a concrete
input. Kind: D -/
def reconfigTo (n : Nat) : SyncRequest := ⟨⟨⟨⟨n, n + 10⟩, 0⟩, []⟩, true⟩

/-- **A reconfiguration ends the epoch**: in every reachable state a sync request with
`reconfig` set is handled without a fault, sets `end_epoch`, sends one ack and leaves the buffer
and the roots as they were (neither root moves, since each is `None` only when its run is empty);
the loop then consumes no further event.
Source: `process_sync_request` (253–255, 280); `start` (409, 418–426)
Kind: P -/
theorem reachable_reconfig_ends_epoch (hr : Reachable v Admissible s h) {r : SyncRequest}
    (hrc : r.reconfig = true) (es : List Event) :
    s.startIteration v (.syncRequest r) =
      .ok { s with endEpoch := true, sent := s.sent ++ [.syncAck] } ∧
    StateManager.start v { s with endEpoch := true, sent := s.sent ++ [.syncAck] } es =
      .ok { s with endEpoch := true, sent := s.sent ++ [.syncAck] } := by
  obtain ⟨p, hp, hi⟩ := hr.invariant
  exact ⟨StateManager.startIteration_syncRequest_reconfig hp hi.wellFormed hrc,
    StateManager.start_of_endEpoch v rfl es⟩

/-- A reconfiguration with three batches at three stages keeps all three; a batch after it is not
consumed. Source: none: witness. Kind: L -/
theorem reachable_reconfig_ends_epoch_threeStages :
    ∃ s, Reachable quorumOfTwo Admissible s threeStages ∧
      (s.buffer.slots.filterMap Slot.elem).map BufferItem.blockId = [1, 2, 3] ∧
      (reconfigTo 3).reconfig = true ∧
      s.startIteration quorumOfTwo (.syncRequest (reconfigTo 3)) =
        .ok { s with endEpoch := true, sent := s.sent ++ [.syncAck] } ∧
      StateManager.start quorumOfTwo { s with endEpoch := true, sent := s.sent ++ [.syncAck] }
          [.orderedBlocks (batch 4)] =
        .ok { s with endEpoch := true, sent := s.sent ++ [.syncAck] } := by
  obtain ⟨s, hr, hids⟩ := @exists_reachable_of_checkRun quorumOfTwo 0 threeStages
    (fun s => (s.buffer.slots.filterMap Slot.elem).map BufferItem.blockId = [1, 2, 3]) _
    (by decide)
  exact ⟨s, hr, hids, rfl, reachable_reconfig_ends_epoch hr rfl [.orderedBlocks (batch 4)]⟩

/-- **No event after a reconfiguration is handled**: on every state and every run, the loop of
`start` stops at the first reconfiguring sync request it handles, so the events after it are
never read; a fault before it or in it is the run's fault either way.
Source: `start` (405–449), its `while !self.end_epoch`; `process_sync_request` (253–255)
Kind: P -/
theorem start_stops_at_reconfig (s : StateManager) (es es' : List Event) {r : SyncRequest}
    (hrc : r.reconfig = true) :
    StateManager.start v s (es ++ .syncRequest r :: es') =
      StateManager.start v s (es ++ [.syncRequest r]) := by
  induction es generalizing s with
  | nil =>
    by_cases hend : s.endEpoch
    · simp [StateManager.start, hend]
    · rcases hs : s.startIteration v (.syncRequest r) with f | s'
      · simp [StateManager.start, hend, hs]
      · simp [StateManager.start, hend, hs, StateManager.start_of_endEpoch v
          (StateManager.startIteration_syncRequest_endEpoch hrc hs)]
  | cons e es ih =>
    by_cases hend : s.endEpoch
    · simp [StateManager.start, hend]
    · cases s.startIteration v e <;> simp [StateManager.start, hend, ih]

/-- A batch that arrives after a reconfiguration is never pushed. Source: none: witness. Kind: L -/
theorem start_stops_at_reconfig_batch :
    (reconfigTo 1).reconfig = true ∧
    StateManager.start quorumOfTwo (StateManager.new 0)
        ([.orderedBlocks (batch 1)] ++ .syncRequest (reconfigTo 1) :: [.orderedBlocks (batch 2)]) =
      StateManager.start quorumOfTwo (StateManager.new 0)
        ([.orderedBlocks (batch 1)] ++ [.syncRequest (reconfigTo 1)]) :=
  ⟨rfl, start_stops_at_reconfig _ _ _ rfl⟩

/-! ## Responses -/

/-- **Admissible responses are applied where a search from the head would apply them**: an
execution response never faults (the `assert!(is_ordered)` holds) and makes Executed the Ordered
item of its last block, if there is one; a successful signing response never faults and makes
Signed the Executed item of its commit id, if there is one.
Source: `process_execution_response` (285–302); `process_signing_response` (305–336)
Kind: P -/
theorem reachable_responses_applied (hr : Reachable v Admissible s h) :
    (∀ r, Admissible s.sent h (.executionResponse r) →
      ∃ s', s.startIteration v (.executionResponse r) = .ok s' ∧
        ∀ blocks n o, r.inner = .ok blocks → ⟨n, some (.ordered o)⟩ ∈ s.buffer.slots →
          blocks.getLast?.map (·.id) = some o.blockId →
          s'.buffer.lookup n = some (some (.executed (o.advanceToExecuted blocks)))) ∧
    (∀ r, Admissible s.sent h (.signingResponse r) →
      ∃ s', s.startIteration v (.signingResponse r) = .ok s' ∧
        ∀ sig n x, r.signatureResult = .ok sig → ⟨n, some (.executed x)⟩ ∈ s.buffer.slots →
          x.blockId = r.commitLedgerInfo.commitInfo.id →
          ∃ si vote, x.advanceToSigned s.author sig = .ok (si, vote) ∧
            s'.buffer.lookup n = some (some (.signed si))) := by
  obtain ⟨p, hp, hi⟩ := hr.invariant
  refine ⟨fun r ha => ?_, fun r ha => ?_⟩
  · have hready := hi.ready ha
    obtain ⟨b, hmem, hb⟩ := ha
    rcases hin : r.inner with err | blocks
    · simp [hin] at hb
    have hlast : blocks.getLast?.map (·.id) = some b := by simpa [hin] using hb
    obtain ⟨b', hb', htail⟩ := hready blocks hin
    obtain ⟨s', hok, hp', -⟩ := StateManager.startIteration_executionResponse (v := v) hp hin hb' htail
    refine ⟨s', hok, fun blocks' n o hin' hslot hid => ?_⟩
    cases hin'
    have ho := Pipeline.mem_ordered_of_mem_items (hp.mem_items hslot)
    have hob : o.blockId = b := Option.some.inj (hid.symm.trans hlast)
    have hcons := eq_cons_of_not_mem_tail (f := (·.2.blockId)) ho
      (by show o.blockId ∉ _; rw [hob]; exact hi.executionRequested_not_tail b hmem)
    refine hp'.lookup ?_
    rw [Pipeline.execute, hcons]
    simp [hid, Pipeline.items]
  · obtain ⟨hready1, hready2⟩ := hi.ready ha
    have hhead : ∀ n x, ⟨n, some (.executed x)⟩ ∈ s.buffer.slots →
        x.blockId = r.commitLedgerInfo.commitInfo.id → p.executed = (n, x) :: p.executed.tail :=
      fun n x hslot hid => eq_cons_of_not_mem_tail (f := (·.2.blockId))
        (Pipeline.mem_executed_of_mem_items (hp.mem_items hslot))
        (by show x.blockId ∉ _; rw [hid]; exact hi.signingRequested_not_tail _ ha)
    rcases StateManager.startIteration_signingResponse (v := v) hp hi.wellFormed hready1 hready2 with
      ⟨hno, s', hok, -⟩ | ⟨c, e, rest, sig, si, vote, hpe, -, hsig, hadv, s', hok, hp', -⟩
    · exact ⟨s', hok, fun sig n x hsig hslot hid =>
        absurd hid (hno n x _ sig (hhead n x hslot hid) hsig)⟩
    · refine ⟨s', hok, fun sig' n x hsig' hslot hid => ?_⟩
      obtain rfl : sig' = sig := Except.ok.inj (hsig'.symm.trans hsig)
      have hne := hhead n x hslot hid
      rw [hpe, List.cons.injEq, Prod.mk.injEq] at hne
      obtain ⟨⟨rfl, rfl⟩, -⟩ := hne
      exact ⟨si, vote, hadv, hp'.lookup (by simp [Pipeline.sign_of_cons hpe, Pipeline.items])⟩

/-- With three batches at three stages, the execution response for the third and the signing
response for the second are admissible, and the theorem applies to them.
Source: none: witness
Kind: L -/
theorem reachable_responses_applied_threeStages :
    ∃ s, Reachable quorumOfTwo Admissible s threeStages ∧
      Admissible s.sent threeStages (.executionResponse (executedBatch 3)) ∧
      Admissible s.sent threeStages (.signingResponse (signedBatch 2)) ∧
      (∀ r, Admissible s.sent threeStages (.executionResponse r) →
        ∃ s', s.startIteration quorumOfTwo (.executionResponse r) = .ok s' ∧
          ∀ blocks n o, r.inner = .ok blocks → ⟨n, some (.ordered o)⟩ ∈ s.buffer.slots →
            blocks.getLast?.map (·.id) = some o.blockId →
            s'.buffer.lookup n = some (some (.executed (o.advanceToExecuted blocks)))) ∧
      (∀ r, Admissible s.sent threeStages (.signingResponse r) →
        ∃ s', s.startIteration quorumOfTwo (.signingResponse r) = .ok s' ∧
          ∀ sig n x, r.signatureResult = .ok sig → ⟨n, some (.executed x)⟩ ∈ s.buffer.slots →
            x.blockId = r.commitLedgerInfo.commitInfo.id →
            ∃ si vote, x.advanceToSigned s.author sig = .ok (si, vote) ∧
              s'.buffer.lookup n = some (some (.signed si))) := by
  obtain ⟨s, hr, ha⟩ := @exists_reachable_of_checkRun quorumOfTwo 0 threeStages
    (fun s => Admissible s.sent threeStages (.executionResponse (executedBatch 3)) ∧
      Admissible s.sent threeStages (.signingResponse (signedBatch 2))) _ (by decide)
  exact ⟨s, hr, ha.1, ha.2, reachable_responses_applied hr⟩

/-! ## Sync requests -/

/-- Source: none: infrastructure. Kind: L -/
@[simp] theorem count_syncAck_executionRequests (q : Pipeline) :
    q.executionRequests.count .syncAck = 0 :=
  List.count_eq_zero.mpr fun h => by simp [Pipeline.executionRequests] at h

/-- Source: none: infrastructure. Kind: L -/
@[simp] theorem count_syncAck_signingRequests (q : Pipeline) :
    q.signingRequests.count .syncAck = 0 :=
  List.count_eq_zero.mpr fun h => by
    obtain ⟨r, hr⟩ := Pipeline.exists_of_mem_signingRequests h
    cases hr

/-- **A sync request without reconfiguration**, in a reachable state, either finds the item of
its commit id and aggregates it, and then pops exactly that item and every item before it in one
persisting request; or aggregates nothing, and then leaves the buffer and both roots as they were
and persists nothing. Either way it is acknowledged exactly once and the epoch goes on.
Source: `process_sync_request` (246–282); `reset_all_roots` (234–238); `start` (418–426)
Kind: P -/
theorem reachable_syncRequest_cases (hr : Reachable v Admissible s h) {r : SyncRequest}
    (hrc : r.reconfig = false) :
    ∃ s' outs, s.startIteration v (.syncRequest r) = .ok s' ∧ s'.sent = s.sent ++ outs ∧
      outs.count .syncAck = 1 ∧ s'.endEpoch = s.endEpoch ∧
      ((∃ pre n x post, s.buffer.slots = pre ++ ⟨n, some x⟩ :: post ∧
          x.blockId = r.ledgerInfo.commitInfo.id ∧
          (x.tryAdvanceToAggregatedWithLedgerInfo v r.ledgerInfo).isAggregated = true ∧
          s'.buffer.slots = post ∧
          persistingRequests outs = [⟨(pre.filterMap Slot.elem ++
            [x.tryAdvanceToAggregatedWithLedgerInfo v r.ledgerInfo]).flatMap BufferItem.getBlocks,
            r.ledgerInfo, x.origin.callback⟩]) ∨
        ((∀ sl ∈ s.buffer.slots, ∀ x, sl.elem = some x → x.blockId = r.ledgerInfo.commitInfo.id →
            (x.tryAdvanceToAggregatedWithLedgerInfo v r.ledgerInfo).isAggregated = false) ∧
          s'.buffer.slots = s.buffer.slots ∧ s'.executionRoot = s.executionRoot ∧
          s'.signingRoot = s.signingRoot ∧ persistingRequests outs = [])) := by
  obtain ⟨p, hp, hi⟩ := hr.invariant
  obtain ⟨s', hok, hend, hcases⟩ :=
    StateManager.startIteration_syncRequest (v := v) hp hi.wellFormed hrc
  rcases hcases with ⟨hno, hp', hsent⟩ | ⟨A, c, x, B, hitems, hid, hver, hp', hsent⟩
  · refine ⟨s', [.syncAck] ++ p.executionRequests ++ p.signingRequests, hok,
      by simp [hsent], by simp [List.count_append], hend, .inr ⟨?_, ?_, ?_, ?_, by simp⟩⟩
    · intro sl hsl y hy hyid
      rw [hp.slots] at hsl
      obtain ⟨⟨n, z⟩, hz, rfl⟩ := List.mem_map.mp hsl
      cases hy
      exact hno _ hz hyid
    · rw [hp'.slots, hp.slots]
    · rw [hp'.executionRoot, hp.executionRoot]
    · rw [hp'.signingRoot, hp.signingRoot]
  · have hna := Pipeline.isAggregated_of_mem_items (by rw [hitems]; simp : (c, x) ∈ p.items)
    have hagg := BufferItem.tryAdvanceToAggregatedWithLedgerInfo_of_verified hna hver hid.symm
    refine ⟨s', _, hok, hsent.trans (List.append_assoc _ _ _ |>.trans (List.append_assoc _ _ _)),
      ?_, hend, .inl ⟨A.map Slot.full, c, x, B.map Slot.full,
        by rw [hp.slots, hitems]; simp [Slot.full], hid, by rw [hagg]; rfl, ?_, ?_⟩⟩
    · simp [List.count_append]
    · rw [hp'.slots, Pipeline.items_dropItems, hitems]
      simp
    · rw [LinkedList.filterMap_elem_map_full, hagg]
      simp


/-- A sync request without reconfiguration. Source: none: a concrete input. Kind: D -/
def syncTo (n : Nat) : SyncRequest := ⟨⟨⟨⟨n, n + 10⟩, 0⟩, []⟩, false⟩

/-- With three batches at three stages, a sync request to the second persists the first two.
Source: none: witness
Kind: L -/
theorem reachable_syncRequest_cases_threeStages :
    ∃ s, Reachable quorumOfTwo Admissible s threeStages ∧
      (s.buffer.slots.filterMap Slot.elem).map BufferItem.blockId = [1, 2, 3] ∧
      (syncTo 2).reconfig = false ∧
      ∃ s' outs, s.startIteration quorumOfTwo (.syncRequest (syncTo 2)) = .ok s' ∧
        s'.sent = s.sent ++ outs ∧ outs.count .syncAck = 1 ∧ s'.endEpoch = s.endEpoch ∧
        ((∃ pre n x post, s.buffer.slots = pre ++ ⟨n, some x⟩ :: post ∧
            x.blockId = (syncTo 2).ledgerInfo.commitInfo.id ∧
            (x.tryAdvanceToAggregatedWithLedgerInfo quorumOfTwo
              (syncTo 2).ledgerInfo).isAggregated = true ∧
            s'.buffer.slots = post ∧
            persistingRequests outs = [⟨(pre.filterMap Slot.elem ++
              [x.tryAdvanceToAggregatedWithLedgerInfo quorumOfTwo (syncTo 2).ledgerInfo]).flatMap
                BufferItem.getBlocks, (syncTo 2).ledgerInfo, x.origin.callback⟩]) ∨
          ((∀ sl ∈ s.buffer.slots, ∀ x, sl.elem = some x →
              x.blockId = (syncTo 2).ledgerInfo.commitInfo.id →
              (x.tryAdvanceToAggregatedWithLedgerInfo quorumOfTwo
                (syncTo 2).ledgerInfo).isAggregated = false) ∧
            s'.buffer.slots = s.buffer.slots ∧ s'.executionRoot = s.executionRoot ∧
            s'.signingRoot = s.signingRoot ∧ persistingRequests outs = [])) := by
  obtain ⟨s, hr, hids⟩ := @exists_reachable_of_checkRun quorumOfTwo 0 threeStages
    (fun s => (s.buffer.slots.filterMap Slot.elem).map BufferItem.blockId = [1, 2, 3]) _
    (by decide)
  exact ⟨s, hr, hids, rfl, reachable_syncRequest_cases hr rfl⟩

/-! ## Persistence -/

/-- **Every persisting request is the buffer's prefix through the item its turn aggregated**: a turn
of a reachable state on an admissible event sends no persisting request, or one. It then popped
the buffer from the head through the item that the turn's commit vote or sync ledger info made
Aggregated, and the request carries the blocks of the popped items and that item's new proof and
callback; its last block is that item's last block, whose id the proof commits. The items before
it may be in any state (`commitVote_persists_signed_predecessor`).
Source: `advance_head` (197–232); `process_commit_message` (341–375); `process_sync_request`
(246–282)
Kind: P -/
theorem reachable_persisting_request_certified (hr : Reachable v Admissible s h) {e : Event}
    {s' : StateManager} (ha : Admissible s.sent h e) (hok : s.startIteration v e = .ok s') :
    ∃ outs, s'.sent = s.sent ++ outs ∧
      (persistingRequests outs = [] ∨
        ∃ pre n x post a, s.buffer.slots = pre ++ ⟨n, some x⟩ :: post ∧ e.Aggregates v x a ∧
          s'.buffer.slots = post ∧
          persistingRequests outs =
            [⟨(pre.filterMap Slot.elem ++ [.aggregated a]).flatMap BufferItem.getBlocks,
              a.aggregatedProof, a.callback⟩] ∧
          ((pre.filterMap Slot.elem ++ [.aggregated a]).flatMap BufferItem.getBlocks).getLast? =
            x.getBlocks.getLast? ∧
          a.aggregatedProof.commitInfo.id = x.blockId) := by
  obtain ⟨p, hp, hi⟩ := hr.invariant
  obtain ⟨p', outs, hs, hp', hsent⟩ :=
    StateManager.startIteration_step hp hi.wellFormed (hi.ready ha) hok
  refine ⟨outs, hsent, ?_⟩
  rcases hs.persisted_aggregated hi.wellFormed with
    hnone | ⟨A, c, x, B, a, hitems, hagg, hB, ho, hid, hreq⟩
  · exact .inl hnone
  have hpre : (A.map Slot.full).filterMap Slot.elem = A.map Prod.snd :=
    LinkedList.filterMap_elem_map_full A
  refine .inr ⟨A.map Slot.full, c, x, B.map Slot.full, a, by rw [hp.slots, hitems]; simp [Slot.full],
    hagg, by rw [hp'.slots, hB], by rw [hpre, hreq], ?_, hid⟩
  simp [hpre, BufferItem.getBlocks_eq, ho, List.getLast?_eq_getLast _ x.origin.orderedBlocks_ne_nil]

/-- After two signed batches, a vote that aggregates the second pops the first with it.
Source: none: witness
Kind: L -/
theorem reachable_persisting_request_certified_vote :
    ∃ s s', Reachable quorumOfTwo Admissible s twoSignedBatches ∧
      Admissible s.sent twoSignedBatches (.commitMessage (.commitVote (voteFor 2 1))) ∧
      s.startIteration quorumOfTwo (.commitMessage (.commitVote (voteFor 2 1))) = .ok s' ∧
      (s.buffer.slots.filterMap Slot.elem).map BufferItem.blockId = [1, 2] ∧
      (persistingRequests s'.sent).length = 1 ∧
      ∃ outs, s'.sent = s.sent ++ outs ∧
        (persistingRequests outs = [] ∨
          ∃ pre n x post a, s.buffer.slots = pre ++ ⟨n, some x⟩ :: post ∧
            (Event.commitMessage (.commitVote (voteFor 2 1))).Aggregates quorumOfTwo x a ∧
            s'.buffer.slots = post ∧
            persistingRequests outs =
              [⟨(pre.filterMap Slot.elem ++ [.aggregated a]).flatMap BufferItem.getBlocks,
                a.aggregatedProof, a.callback⟩] ∧
            ((pre.filterMap Slot.elem ++ [.aggregated a]).flatMap BufferItem.getBlocks).getLast? =
              x.getBlocks.getLast? ∧
            a.aggregatedProof.commitInfo.id = x.blockId) := by
  obtain ⟨s, s', hr, ha, hok, hids, hlen⟩ := @exists_turn_of_checkRun quorumOfTwo 0
    twoSignedBatches (.commitMessage (.commitVote (voteFor 2 1)))
    (fun s s' => (s.buffer.slots.filterMap Slot.elem).map BufferItem.blockId = [1, 2] ∧
      (persistingRequests s'.sent).length = 1) _ (by decide)
  exact ⟨s, s', hr, ha, hok, hids, hlen, reachable_persisting_request_certified hr ha hok⟩

/-- **Nothing is persisted without a certificate**: every persisting request carries a ledger
info whose signatures reach the quorum (when commit votes aggregated the item) or that the
verifier accepted (when a sync request did).
Source: `process_commit_message` (352–363); `process_sync_request` (262–271); `advance_head`
Kind: P -/
theorem reachable_persisted_ledgerInfo_certified (hr : Reachable v Admissible s h) :
    ∀ r ∈ persistingRequests s.sent, Certified v r.commitLedgerInfo := by
  induction hr with
  | init a => simp [StateManager.new]
  | step hr' _ ha hok ih =>
    obtain ⟨p, hp, hi⟩ := hr'.invariant
    obtain ⟨p', outs, hs, -, hsent⟩ :=
      StateManager.startIteration_step hp hi.wellFormed (hi.ready ha) hok
    intro r hm
    rw [hsent, persistingRequests_append, List.mem_append] at hm
    exact hm.elim (ih r) (hs.persisted_certified r)

/-- After `firstPersisted` the one request sent is certified. Source: none: witness. Kind: L -/
theorem reachable_persisted_ledgerInfo_certified_firstPersisted :
    ∃ s, Reachable quorumOfTwo Admissible s firstPersisted ∧
      (persistingRequests s.sent).length = 1 ∧
      ∀ r ∈ persistingRequests s.sent, Certified quorumOfTwo r.commitLedgerInfo := by
  obtain ⟨s, hr, hlen⟩ := @exists_reachable_of_checkRun quorumOfTwo 0 firstPersisted
    (fun s => (persistingRequests s.sent).length = 1) _ (by decide)
  exact ⟨s, hr, hlen, reachable_persisted_ledgerInfo_certified hr⟩

/-- **A quorum on a later item persists an earlier item that is only Signed**: after two batches
are signed, one more vote aggregates the second; `advance_head` pops the first, still Signed,
with it, and persists both blocks under the second's proof.
Source: `process_commit_message` (341–375); `advance_head` (205–231)
Kind: P -/
theorem commitVote_persists_signed_predecessor :
    ∃ s, Reachable quorumOfTwo Admissible s twoSignedBatches ∧
      (∃ n si, s.buffer.slots.head? = some ⟨n, some (.signed si)⟩) ∧
      ∃ s', s.startIteration quorumOfTwo (.commitMessage (.commitVote (voteFor 2 1))) = .ok s' ∧
        s'.buffer.slots = [] ∧
        persistingRequests s'.sent = [⟨[⟨1, 0⟩, ⟨2, 0⟩], ⟨⟨⟨2, 12⟩, 0⟩, [(1, 1), (0, 2)]⟩, 2⟩] := by
  obtain ⟨s, hr, hhead, hvote⟩ := @exists_reachable_of_checkRun quorumOfTwo 0 twoSignedBatches
    (fun s =>
      (match s.buffer.slots.head? with
        | some ⟨_, some (.signed _)⟩ => true
        | _ => false) = true ∧
      (match s.startIteration quorumOfTwo (.commitMessage (.commitVote (voteFor 2 1))) with
        | .ok s' => decide (s'.buffer.slots = [] ∧ persistingRequests s'.sent =
            [⟨[⟨1, 0⟩, ⟨2, 0⟩], ⟨⟨⟨2, 12⟩, 0⟩, [(1, 1), (0, 2)]⟩, 2⟩])
        | .error _ => false) = true) _ (by decide)
  refine ⟨s, hr, ?_, ?_⟩
  · split at hhead
    · exact ⟨_, _, ‹_›⟩
    · cases hhead
  · split at hvote
    · exact ⟨_, ‹_›, of_decide_eq_true hvote⟩
    · cases hvote

end BufferManager
