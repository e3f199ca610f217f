import BufferManager.Outstanding

/-!
# The stages only move forward

`execution_root` is the first Ordered item and `signing_root` the first Executed one. Items leave
these runs from the front (an execution, a signature, a pop by `advance_head`) and join them at the
back only, in arrival order (a push, an execution). So the item a root names never moves back in
arrival order, through sync requests, stale responses and failed signatures alike, and neither do
the requests sent for it:

* `ArrivedNoLater pushed a b` — block `a` is `b`, or arrived before it.
* `Forward.requests_append` — the lemma both stages share: requests for the head of a waiting list
  that only loses items and gains newly pushed ones keep the arrival order.
* **`reachable_requests_forward`** — in every reachable state each execution request, and each
  signing request, is for the block of every earlier request of its kind or for a block that
  arrived after it. Without sync requests the execution side is exact
  (`reachable_executionRequests_in_order`); with them, a sync may pop the root and a stale
  response re-request it, but never send a stage back.

The run invariant is `RequestsForward`, kept by every admissible step (`RequestsForward.step`); it
rests on the buffer holding its blocks in arrival order (`Invariant.waiting_sublist`).
-/

namespace BufferManager

open scoped List

/-! ## Arrival order -/

/-- Block `a` is block `b`, or arrived before it, in the arrival order `pushed`.
Source: none: the order of the pushes of `process_ordered_blocks` (140–150)
Kind: D -/
def ArrivedNoLater (pushed : List HashValue) (a b : HashValue) : Prop := a = b ∨ [a, b] <+ pushed

section ArrivedNoLater

variable {pushed new w : List HashValue} {a b : HashValue}

/-- Later arrivals keep the order of earlier ones. Source: none: infrastructure. Kind: L -/
theorem ArrivedNoLater.mono (h : ArrivedNoLater pushed a b) (new : List HashValue) :
    ArrivedNoLater (pushed ++ new) a b :=
  h.imp_right (·.trans (List.sublist_append_left _ _))

/-- A block that arrives now arrived after every block that arrived before.
Source: none: infrastructure
Kind: L -/
theorem arrivedNoLater_of_new (ha : a ∈ pushed) (hb : b ∈ new) :
    ArrivedNoLater (pushed ++ new) a b :=
  .inr ((List.singleton_sublist.mpr ha).append (List.singleton_sublist.mpr hb))

/-- The head of a list in arrival order arrived no later than any of its blocks.
Source: none: infrastructure
Kind: L -/
theorem arrivedNoLater_of_head (hw : w <+ pushed) (ha : a ∈ w.head?) (hb : b ∈ w) :
    ArrivedNoLater pushed a b := by
  cases w with
  | nil => simp at ha
  | cons c t =>
    obtain rfl : c = a := by simpa using ha
    rcases List.mem_cons.mp hb with rfl | hb
    · exact .inl rfl
    · exact .inr ((List.cons_sublist_cons.mpr (List.singleton_sublist.mpr hb)).trans hw)

end ArrivedNoLater

/-! ## Requests for the head of a waiting list -/

/-- **Requests for the head of a waiting list keep the arrival order** when the list only loses
items and gains newly arrived ones, and stays in arrival order. `R` are the requests sent, every
one of them for a block that arrived no later than each waiting block of `W`; `R'` are the
requests one turn sends, all for the head of the new waiting list `W'`.
Source: `advance_execution_root` (154–164); `advance_signing_root` (168–193)
Kind: L -/
theorem Forward.requests_append {R R' W W' pushed new : List HashValue}
    (hR : R.Pairwise (ArrivedNoLater pushed)) (hRW : ∀ a ∈ R, ∀ b ∈ W, ArrivedNoLater pushed a b)
    (hRp : ∀ a ∈ R, a ∈ pushed) (hR' : ∀ a ∈ R', a ∈ W'.head?)
    (hW' : ∀ b ∈ W', b ∈ W ∨ b ∈ new) (hsub : W' <+ pushed ++ new) :
    (R ++ R').Pairwise (ArrivedNoLater (pushed ++ new)) ∧
      ∀ a ∈ R ++ R', ∀ b ∈ W', ArrivedNoLater (pushed ++ new) a b := by
  have hold : ∀ a ∈ R, ∀ b ∈ W', ArrivedNoLater (pushed ++ new) a b := fun a ha b hb =>
    (hW' b hb).elim (fun hb => (hRW a ha b hb).mono new) (arrivedNoLater_of_new (hRp a ha))
  have hnew : ∀ a ∈ R', ∀ b ∈ W', ArrivedNoLater (pushed ++ new) a b := fun a ha b hb =>
    arrivedNoLater_of_head hsub (hR' a ha) hb
  refine ⟨List.pairwise_append.mpr ⟨hR.imp (·.mono new), ?_, fun a ha a' ha' => ?_⟩, ?_⟩
  · exact List.pairwise_of_forall_mem_list fun a ha b hb =>
      .inl (Option.mem_unique (hR' a ha) (hR' b hb))
  · exact hold a ha a' (List.mem_of_mem_head? (hR' a' ha'))
  · intro a ha
    exact (List.mem_append.mp ha).elim (hold a) (hnew a)

/-! ## The buffer is in arrival order -/

/-- The Executed run followed by the Ordered run is in arrival order: the buffer is what remains
of the pushed items after the pops, which take its front.
Source: `advance_head` (197–232); `process_ordered_blocks` (140–150)
Kind: L -/
theorem Invariant.waiting_sublist {p : Pipeline} {h : List Event} {sent : List Output}
    (hi : Invariant p h sent) : p.executedIds ++ p.orderedIds <+ pushedIds h := by
  obtain ⟨pops, hcons, -, -⟩ := hi.conservation
  have hsuffix : p.ids <:+ pushedIds h := ⟨(pops.flatMap Popped.items).map BufferItem.blockId, by
    rw [pushedIds, ← hcons]
    simp [Pipeline.ids, BufferItem.blockId, Function.comp_def]⟩
  rw [Pipeline.ids_eq, List.append_assoc] at hsuffix
  exact ((List.suffix_append _ _).trans hsuffix).sublist

/-! ## The run invariant -/

/-- Requests of each kind, in sending order, never go back in arrival order, and every block still
waiting for a stage arrived no earlier than the blocks that stage was asked for.
Source: none: the run invariant of this module
Kind: D -/
structure RequestsForward (p : Pipeline) (h : List Event) (sent : List Output) : Prop where
  /-- Execution requests never go back. -/
  executionRequests : (executionRequestIds sent).Pairwise (ArrivedNoLater (pushedIds h))
  /-- Signing requests never go back. -/
  signingRequests : (signingRequestIds sent).Pairwise (ArrivedNoLater (pushedIds h))
  /-- Every Ordered item arrived no earlier than every block whose execution was requested. -/
  executionRequested_before : ∀ a ∈ executionRequestIds sent, ∀ b ∈ p.orderedIds,
    ArrivedNoLater (pushedIds h) a b
  /-- Every Executed or Ordered item arrived no earlier than every block whose signature was
  requested. -/
  signingRequested_before : ∀ a ∈ signingRequestIds sent, ∀ b ∈ p.executedIds ++ p.orderedIds,
    ArrivedNoLater (pushedIds h) a b

namespace RequestsForward

variable {v : ValidatorVerifier} {au : Author} {p p' : Pipeline} {h : List Event} {e : Event}
  {sent outs : List Output}

/-- Source: `StateManager::new`. Kind: L -/
theorem init : RequestsForward ⟨[], [], []⟩ [] [] :=
  ⟨by simp, by simp, by simp, by simp⟩

/-- **Every admissible step keeps the requests moving forward**: each stage's new requests are for
the head of its waiting list (the Ordered run; the Executed run, then the Ordered one), which only
loses items and gains pushed or executed ones behind the others.
Source: the arms of `start` (411–445); `advance_execution_root`; `advance_signing_root`
Kind: L -/
theorem step (hf : RequestsForward p h sent) (hi : Invariant p h sent)
    (hs : p.Step v au e p' outs) (ha : Admissible sent h e) :
    RequestsForward p' (h ++ [e]) (sent ++ outs) := by
  have hi' := hi.step hs ha
  have hwait := hi'.waiting_sublist
  rw [pushedIds_append] at hwait
  obtain ⟨he, he'⟩ := Forward.requests_append hf.executionRequests hf.executionRequested_before
    hi.executionRequested_pushed hs.executionRequestIds_outs hs.orderedIds_subset
    ((List.sublist_append_right _ _).trans hwait)
  have hsign' : ∀ a ∈ signingRequestIds outs, a ∈ (p'.executedIds ++ p'.orderedIds).head? :=
    fun a ha => by
      have ha := hs.signingRequestIds_outs hi'.wellFormed a ha
      cases hq : p'.executedIds <;> simp_all
  have hwait' : ∀ b ∈ p'.executedIds ++ p'.orderedIds,
      b ∈ p.executedIds ++ p.orderedIds ∨ b ∈ pushedIds [e] := fun b hb => by
    rcases List.mem_append.mp hb with hb | hb
    · exact .inl (List.mem_append.mpr (hs.executedIds_subset b hb))
    · exact (hs.orderedIds_subset b hb).imp_left (List.mem_append_right _)
  obtain ⟨hg, hg'⟩ := Forward.requests_append hf.signingRequests hf.signingRequested_before
    hi.signingRequested_pushed hsign' hwait' hwait
  rw [← executionRequestIds_append, ← pushedIds_append] at he he'
  rw [← signingRequestIds_append, ← pushedIds_append] at hg hg'
  exact ⟨he, hg, he', hg'⟩

end RequestsForward

/-- Every reachable state refines a pipeline whose requests move forward.
Source: `start` (405–449)
Kind: L -/
theorem Reachable.requestsForward {v : ValidatorVerifier} {s : StateManager} {h : List Event}
    (hr : Reachable v Admissible s h) :
    ∃ p, Refines s p ∧ Invariant p h s.sent ∧ RequestsForward p h s.sent :=
  hr.invariant_with id RequestsForward.init fun hi hf hs ha => hf.step hi hs ha

/-- **No stage is ever sent back**: in every reachable state, each execution request, and each
signing request, is for the block of every earlier request of its kind or for a block that
arrived after it, whatever sync requests, stale responses and failed signatures came between.
Source: `advance_execution_root` (154–164); `advance_signing_root` (168–193);
`process_sync_request` (246–282); `start` (405–449)
Kind: P -/
theorem reachable_requests_forward {v : ValidatorVerifier} {s : StateManager} {h : List Event}
    (hr : Reachable v Admissible s h) :
    (executionRequestIds s.sent).Pairwise (ArrivedNoLater (pushedIds h)) ∧
    (signingRequestIds s.sent).Pairwise (ArrivedNoLater (pushedIds h)) := by
  obtain ⟨p, -, -, hf⟩ := hr.requestsForward
  exact ⟨hf.executionRequests, hf.signingRequests⟩

/-- Two batches, then a sync that persists the first: the execution root moves on to the second.
Source: none: witness
Kind: L -/
theorem reachable_requests_forward_synced :
    ∃ s, Reachable quorumOfTwo Admissible s
        [.orderedBlocks (batch 1), .orderedBlocks (batch 2), .syncRequest (syncTo 1)] ∧
      executionRequestIds s.sent = [1, 2] ∧
      (executionRequestIds s.sent).Pairwise (ArrivedNoLater (pushedIds
        [.orderedBlocks (batch 1), .orderedBlocks (batch 2), .syncRequest (syncTo 1)])) ∧
      (signingRequestIds s.sent).Pairwise (ArrivedNoLater (pushedIds
        [.orderedBlocks (batch 1), .orderedBlocks (batch 2), .syncRequest (syncTo 1)])) := by
  obtain ⟨s, hr, hids⟩ := @exists_reachable_of_checkRun quorumOfTwo 0
    [.orderedBlocks (batch 1), .orderedBlocks (batch 2), .syncRequest (syncTo 1)]
    (fun s => executionRequestIds s.sent = [1, 2]) _ (by decide)
  exact ⟨s, hr, hids, reachable_requests_forward hr⟩

end BufferManager
