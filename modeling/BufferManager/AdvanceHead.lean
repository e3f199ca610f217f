import BufferManager.StateManager

/-!
# `advance_head` pops exactly the prefix through its target

`advanceHead s (some n)` reads the item of node `n`, asserts it is Aggregated, and pops the buffer
until it meets that item's block id. When the block ids of the buffer are distinct, the first
item with the target's id is the target itself, so:

* **`advanceHead_pops_through_target`**: on a buffer `pre ++ [target] ++ post` whose slots all hold
  items with distinct block ids and whose target is Aggregated, `advance_head` returns (it reaches
  neither `unreachable!`), leaves exactly `post`, and sends one persisting request: the blocks of
  `pre` and of the target, in order, with the target's aggregated proof and callback. Roots and
  `end_epoch` are untouched.

The loop is `advanceHeadLoop_of_full`, by induction on the popped prefix; `advanceHead_eq_of_full`
gives the whole call's result, which the simulation of the commit and sync arms uses.
-/

namespace BufferManager

namespace StateManager

/-- The loop pops a full prefix that does not hold the target's id, then the target.
Source: `advance_head` (205–231)
Kind: L -/
theorem advanceHeadLoop_of_full {pre post : List (Slot BufferItem)} {n : Nat} {a : AggregatedItem}
    (hfull : ∀ sl ∈ pre, sl.elem.isSome)
    (hid : ∀ sl ∈ pre, ∀ x, sl.elem = some x → x.blockId ≠ a.blockId) (acc : List ExecutedBlock) :
    advanceHeadLoop a.blockId (pre ++ ⟨n, some (.aggregated a)⟩ :: post) acc =
      .ok (⟨acc ++ (pre.filterMap Slot.elem ++ [BufferItem.aggregated a]).flatMap BufferItem.getBlocks,
        a.aggregatedProof, a.callback⟩, pre.length + 1) := by
  induction pre generalizing acc with
  | nil => simp [advanceHeadLoop]
  | cons sl pre ih =>
    obtain ⟨m, _ | x⟩ := sl
    · simp at hfull
    · have hx : x.blockId ≠ a.blockId := hid _ (List.mem_cons_self _ _) x rfl
      have ih' := ih (fun s hs => hfull s (List.mem_cons_of_mem _ hs))
        (fun s hs => hid s (List.mem_cons_of_mem _ hs)) (acc ++ x.getBlocks)
      simp [advanceHeadLoop, hx, ih', Functor.map, Except.map]

/-- **The result of `advance_head` on a full buffer with distinct block ids**: it drops the slots
through the Aggregated target and sends one persisting request for them.
Source: `advance_head` (195–232)
Kind: L -/
theorem advanceHead_eq_of_full (s : StateManager) {pre post : List (Slot BufferItem)}
    {n : Nat} {a : AggregatedItem}
    (hbuf : s.buffer.slots = pre ++ ⟨n, some (.aggregated a)⟩ :: post)
    (hfull : ∀ sl ∈ s.buffer.slots, sl.elem.isSome)
    (hids : ((s.buffer.slots.filterMap Slot.elem).map BufferItem.blockId).Nodup) :
    s.advanceHead (some n) = .ok ({ s with buffer := s.buffer.dropFront (pre.length + 1) }.send
      (.persistingRequest ⟨(pre.filterMap Slot.elem ++ [BufferItem.aggregated a]).flatMap
        BufferItem.getBlocks, a.aggregatedProof, a.callback⟩)) := by
  have hget : s.buffer.getElem (some n) = .ok (.aggregated a) :=
    LinkedList.getElem_of_mem (by rw [hbuf]; simp)
  have hpre : ∀ sl ∈ pre, sl.elem.isSome := fun sl h => hfull sl (by rw [hbuf]; simp [h])
  have hid : ∀ sl ∈ pre, ∀ x, sl.elem = some x → x.blockId ≠ a.blockId := by
    intro sl hsl x hx hxa
    rw [hbuf, List.filterMap_append, List.map_append, List.nodup_append] at hids
    exact hids.2.2 (List.mem_map.mpr ⟨x, List.mem_filterMap.mpr ⟨sl, hsl, hx⟩, rfl⟩)
      (by simp [hxa])
  simp [advanceHead, hget, BufferItem.isAggregated, hbuf, advanceHeadLoop_of_full hpre hid]

/-- **`advance_head` removes exactly the items from the head through the aggregated target** and
sends one persisting request for them, carrying the target's aggregated proof and callback.
Source: `advance_head` (195–232); spec §4.3 `advance_head(aggregated_cursor)`
Kind: P -/
theorem advanceHead_pops_through_target (s : StateManager) {pre post : List (Slot BufferItem)}
    {n : Nat} {a : AggregatedItem}
    (hbuf : s.buffer.slots = pre ++ ⟨n, some (.aggregated a)⟩ :: post)
    (hfull : ∀ sl ∈ s.buffer.slots, sl.elem.isSome)
    (hids : ((s.buffer.slots.filterMap Slot.elem).map BufferItem.blockId).Nodup) :
    ∃ s', s.advanceHead (some n) = .ok s' ∧ s'.buffer.slots = post ∧
      s'.sent = s.sent ++ [.persistingRequest
        ⟨(pre.filterMap Slot.elem ++ [BufferItem.aggregated a]).flatMap BufferItem.getBlocks,
          a.aggregatedProof, a.callback⟩] ∧
      s'.executionRoot = s.executionRoot ∧ s'.signingRoot = s.signingRoot ∧
      s'.endEpoch = s.endEpoch :=
  ⟨_, advanceHead_eq_of_full s hbuf hfull hids, by simp [hbuf], rfl, rfl, rfl, rfl⟩

/-- A buffer of three items whose middle one is Aggregated: `advance_head` pops the first two and
leaves the third, persisting the blocks of the first two under the middle one's proof.
Source: none: witness
Kind: L -/
theorem advanceHead_pops_through_target_middle :
    let o : Nat → OrderedItem := fun n => ⟨[⟨n, 0⟩], by simp, ⟨⟨⟨0, 0⟩, 0⟩, []⟩, n⟩
    let a : AggregatedItem := { o 2 with aggregatedProof := ⟨⟨⟨2, 0⟩, 0⟩, []⟩ }
    let s : StateManager := { StateManager.new 0 with
      buffer := ((LinkedList.new.pushBack (.ordered (o 1))).pushBack (.aggregated a)).pushBack
        (.ordered (o 3)) }
    ∃ s', s.advanceHead (some 1) = .ok s' ∧ s'.buffer.slots = [⟨2, some (.ordered (o 3))⟩] ∧
      s'.sent = s.sent ++ [.persistingRequest
        ⟨(([⟨0, some (.ordered (o 1))⟩] : List (Slot BufferItem)).filterMap Slot.elem ++
          [BufferItem.aggregated a]).flatMap BufferItem.getBlocks, a.aggregatedProof, a.callback⟩] ∧
      s'.executionRoot = s.executionRoot ∧ s'.signingRoot = s.signingRoot ∧
      s'.endEpoch = s.endEpoch := by
  intro o a s
  exact @advanceHead_pops_through_target s [⟨0, some (.ordered (o 1))⟩] _ _ _ rfl (by decide)
    (by decide)

end StateManager

end BufferManager
