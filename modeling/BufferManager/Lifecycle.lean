import BufferManager.Provenance

/-!
# Each item only moves forward through its lifecycle

An item of the buffer is Ordered, Executed, Signed or Aggregated (`BufferItem.stage`). The
handlers replace an item in place by a later state of it, pop a prefix of the buffer, or push an
item for a new block; none moves an item back or gives it other blocks.

* **`reachable_items_only_advance`**: along any run of admissible turns from a reachable state, an
  item of the last buffer whose block was in the first buffer sits at the same node, keeps the
  ordered item it was created from (its blocks, ordered proof and callback), and is at the same or
  a later stage.

One turn is `Pipeline.Step.advanced`, from the two shapes a step has on the buffer: an item
replaced in place (`advanced_of_replace`), or items kept, dropped or pushed for a new block
(`advanced_of_mem_or_fresh`). Turns chain because a block that has left the buffer never comes
back (`checkRun_not_mem_blockIds`): pushed blocks are fresh.
-/

namespace BufferManager

/-! ## Stages -/

namespace BufferItem

/-- The place of an item's state in the lifecycle Ordered < Executed < Signed < Aggregated.
Source: spec §3 ("An item's state only advances monotonically")
Kind: D -/
def stage : BufferItem → Nat
  | ordered _ => 0
  | executed _ => 1
  | signed _ => 2
  | aggregated _ => 3

/-- `y` is `x` or a later state of the same item: its stage is no earlier, and it keeps the ordered
item `x` was created from.
Source: spec §3
Kind: D -/
def Advances (x y : BufferItem) : Prop := x.stage ≤ y.stage ∧ y.origin = x.origin

instance : DecidableRel Advances := fun _ _ => inferInstanceAs (Decidable (_ ∧ _))

/-- Source: none: infrastructure. Kind: L -/
theorem Advances.refl (x : BufferItem) : x.Advances x := ⟨le_rfl, rfl⟩

/-- Source: none: infrastructure. Kind: L -/
theorem Advances.trans {x y z : BufferItem} (hxy : x.Advances y) (hyz : y.Advances z) :
    x.Advances z :=
  ⟨hxy.1.trans hyz.1, hyz.2.trans hxy.2⟩

/-- A later state of an item has its block id. Source: none: infrastructure. Kind: L -/
theorem Advances.blockId_eq {x y : BufferItem} (h : x.Advances y) : y.blockId = x.blockId :=
  congrArg OrderedItem.blockId h.2

end BufferItem

/-! ## One turn -/

namespace Pipeline

variable {v : ValidatorVerifier} {au : Author} {p p' : Pipeline} {e : Event} {outs : List Output}

/-- From `p` to `p'`, each item of `p'` whose block was an item of `p` sits at the same node and is
a later state of it.
Source: spec §3
Kind: D -/
def Advanced (p p' : Pipeline) : Prop :=
  ∀ x ∈ p.items, ∀ y ∈ p'.items, y.2.blockId = x.2.blockId → y.1 = x.1 ∧ x.2.Advances y.2

/-- In a well-formed pipeline an item is known by its block id.
Source: none: infrastructure
Kind: L -/
theorem WellFormed.eq_of_blockId_eq (hw : p.WellFormed) {x y : Nat × BufferItem}
    (hx : x ∈ p.items) (hy : y ∈ p.items) (h : y.2.blockId = x.2.blockId) : y = x :=
  List.inj_on_of_nodup_map hw.ids_nodup hy hx h

/-- A step that keeps items, drops others and adds only items of new blocks advances every item it
keeps, leaving it as it was.
Source: none: infrastructure
Kind: L -/
theorem advanced_of_mem_or_fresh (hw : p.WellFormed)
    (h : ∀ y ∈ p'.items, y ∈ p.items ∨ y.2.blockId ∉ p.ids) : p.Advanced p' := by
  intro x hx y hy hid
  rcases h y hy with hy | hfresh
  · obtain rfl := hw.eq_of_blockId_eq hx hy hid
    exact ⟨rfl, .refl _⟩
  · exact absurd (hid ▸ List.mem_map_of_mem _ hx) hfresh

/-- A step that replaces one item in place by a later state of it advances every item.
Source: none: infrastructure
Kind: L -/
theorem advanced_of_replace (hw : p.WellFormed) {A B : List (Nat × BufferItem)} {c : Nat}
    {x y : BufferItem} (h : p.items = A ++ (c, x) :: B) (h' : p'.items = A ++ (c, y) :: B)
    (hxy : x.Advances y) : p.Advanced p' := by
  intro z hz w hw' hid
  rw [h', List.mem_append, List.mem_cons, or_left_comm] at hw'
  rcases hw' with rfl | hw'
  · obtain rfl := hw.eq_of_blockId_eq (y := (c, x)) hz (by simp [h]) (hxy.blockId_eq.symm.trans hid)
    exact ⟨rfl, hxy⟩
  · obtain rfl := hw.eq_of_blockId_eq hz (by rw [h]; rcases hw' with hw' | hw' <;> simp [hw']) hid
    exact ⟨rfl, .refl _⟩

/-- **What a step can do to the items**: keep some and drop others, adding only an item of the
block it pushes; or replace one item in place by its execution, its signature, or its state after
a commit vote that leaves it Signed.
Source: the arms of `start` (411–445)
Kind: L -/
theorem Step.items_cases (hs : p.Step v au e p' outs) :
    (∀ y ∈ p'.items, y ∈ p.items ∨ y.2.blockId ∈ pushedIds [e]) ∨
    ∃ A B c x y, p.items = A ++ (c, x) :: B ∧ p'.items = A ++ (c, y) :: B ∧
      ((∃ o bs, x = .ordered o ∧ y = .executed (o.advanceToExecuted bs)) ∨
        (∃ ex si sig vote, x = .executed ex ∧ y = .signed si ∧
          ex.advanceToSigned au sig = .ok (si, vote)) ∨
        (∃ vote si si', x = .signed si ∧ y = .signed si' ∧
          (BufferItem.signed si).withCommitVote v vote = .signed si')) := by
  cases hs with
  | push n b =>
    refine .inl fun y hy => ?_
    rw [items_push, List.mem_append, List.mem_singleton] at hy
    rcases hy with hy | rfl
    · exact .inl hy
    · exact .inr (by simp [pushedIds, pushedItems])
  | @execute r blocks hok =>
    rcases execute_cases p blocks with ⟨-, hex⟩ | ⟨n, o, rest, hp, -, hex⟩ <;> rw [hex]
    · exact .inl fun y hy => .inl hy
    · exact .inr ⟨_, _, n, .ordered o, .executed (o.advanceToExecuted blocks),
        items_of_ordered_cons hp, by simp [items], .inl ⟨o, blocks, rfl, rfl⟩⟩
  | @sign r c x rest sig si vote hp he hsig hadv =>
    rw [sign_of_cons hp]
    exact .inr ⟨_, _, c, .executed x, .signed si, items_of_executed_cons hp, by simp [items],
      .inr (.inl ⟨x, si, sig, vote, rfl, rfl, hadv⟩)⟩
  | @vote vote A B c si si' hAB hsi =>
    exact .inr ⟨A.map (Prod.map id .signed), B.map (Prod.map id .signed) ++
        p.executed.map (Prod.map id .executed) ++ p.ordered.map (Prod.map id .ordered), c,
      .signed si, .signed si', by simp [items, hAB], by simp [items],
      .inr (.inr ⟨vote, si, si', rfl, rfl, hsi⟩)⟩
  | @voteAggregate vote A B c si a hAB ha =>
    refine .inl fun y hy => .inl ?_
    simp only [items, hAB, List.map_append, List.map_cons, List.mem_append, List.mem_cons] at hy ⊢
    tauto
  | syncAggregate =>
    exact .inl fun y hy => .inl (List.mem_of_mem_drop (by rwa [items_dropItems] at hy))
  | signNothing | voteNothing | syncNothing | syncReconfig | tick => exact .inl fun y hy => .inl hy

/-- **Where a Signed item after a step comes from**: it was Signed before, or a signing response
signed the first Executed item into it and broadcast its vote, or a commit vote left a Signed item
of its node Signed as it.
Source: `process_signing_response` (305–336); `process_commit_message` (341–375)
Kind: L -/
theorem Step.signed_cases (hs : p.Step v au e p' outs) :
    ∀ y ∈ p'.signed, y ∈ p.signed ∨
      (∃ r x rest sig vote, e = .signingResponse r ∧ p.executed = (y.1, x) :: rest ∧
        r.signatureResult = .ok sig ∧ x.advanceToSigned au sig = .ok (y.2, vote) ∧
        outs = [.commitVote vote] ++ p'.signingRequests) ∨
      ∃ vote si, e = .commitMessage (.commitVote vote) ∧ (y.1, si) ∈ p.signed ∧
        (BufferItem.signed si).withCommitVote v vote = .signed y.2 := by
  cases hs with
  | @execute r blocks hok =>
    rcases execute_cases p blocks with ⟨-, hex⟩ | ⟨n, o, rest, -, -, hex⟩ <;> rw [hex] <;>
      exact fun y hy => .inl hy
  | @sign r c x rest sig si vote hp he hsig hadv =>
    intro y hy
    simp only [sign_of_cons hp, List.mem_append, List.mem_singleton] at hy
    rcases hy with hy | rfl
    · exact .inl hy
    · exact .inr (.inl ⟨r, x, rest, sig, vote, rfl, hp, hsig, hadv, rfl⟩)
  | @vote vote A B c si si' hAB hsi =>
    intro y hy
    simp only [List.mem_append, List.mem_cons] at hy
    rcases hy with hy | rfl | hy
    · exact .inl (by simp [hAB, hy])
    · exact .inr (.inr ⟨vote, si, rfl, by simp [hAB], hsi⟩)
    · exact .inl (by simp [hAB, hy])
  | @voteAggregate vote A B c si a hAB ha => exact fun y hy => .inl (by simp [hAB, hy])
  | syncAggregate => exact fun y hy => .inl (List.mem_of_mem_drop (by simpa using hy))
  | push | signNothing | voteNothing | syncNothing | syncReconfig | tick =>
    exact fun y hy => .inl hy

/-- **One turn advances every item it keeps**: an execution or a signature moves one item a stage
on, a commit vote keeps its Signed item Signed, and every other change drops items or pushes one of
a new block.
Source: the arms of `start` (411–445)
Kind: L -/
theorem Step.advanced (hs : p.Step v au e p' outs) (hw : p.WellFormed)
    (hfresh : ∀ b ∈ pushedIds [e], b ∉ p.ids) : p.Advanced p' := by
  rcases hs.items_cases with hkept | ⟨A, B, c, x, y, h, h', hxy⟩
  · exact advanced_of_mem_or_fresh hw fun y hy => (hkept y hy).imp_right (hfresh _)
  · refine advanced_of_replace hw h h' ?_
    rcases hxy with ⟨o, bs, rfl, rfl⟩ | ⟨ex, si, sig, vote, rfl, rfl, hadv⟩ |
      ⟨vote, si, si', rfl, rfl, hsi⟩
    · exact ⟨Nat.zero_le _, rfl⟩
    · exact ⟨Nat.le_succ _, BufferItem.origin_advanceToSigned hadv⟩
    · exact ⟨le_rfl, by rw [← hsi, BufferItem.origin_withCommitVote]⟩

end Pipeline

/-! ## Whole runs -/

section Runs

variable {v : ValidatorVerifier} {s s' : StateManager} {h : List Event} {es : List Event}

/-- **A block that has left the buffer never comes back**: a turn adds to the buffer only the
block it pushes, and pushed blocks are fresh.
Source: `start` (405–449); `process_ordered_blocks` (140–150)
Kind: L -/
theorem checkRun_not_mem_blockIds (hr : Reachable v Admissible s h) {b : HashValue}
    (hb : b ∈ pushedIds h) (hgone : b ∉ (s.buffer.slots.filterMap Slot.elem).map BufferItem.blockId)
    (hc : checkRun v s h es = some s') :
    b ∉ (s'.buffer.slots.filterMap Slot.elem).map BufferItem.blockId := by
  induction es generalizing s h with
  | nil =>
    cases hc
    exact hgone
  | cons e es ih =>
    obtain ⟨s'', hend, ha, hok, hc⟩ := checkRun_cons_eq_some hc
    obtain ⟨p, p', outs, hp, -, hs, hp'⟩ := hr.turn ha hok
    refine ih (hr.step hend ha hok) (by simp [hb]) ?_ hc
    rw [hp.blockIds] at hgone
    rw [hp'.blockIds]
    intro hb'
    rcases hs.ids_subset b hb' with hold | hnew
    · exact hgone hold
    · exact ha.fresh b hnew hb

/-- **Items only move forward**: along a run of admissible turns from a reachable state, an item
of the last buffer whose block was in the first one sits at the same node, keeps the ordered item
it was created from, and is at the same or a later stage.
Source: the arms of `start` (411–445); spec §3 ("An item's state only advances monotonically")
Kind: P -/
theorem reachable_items_only_advance (hr : Reachable v Admissible s h)
    (hc : checkRun v s h es = some s') {n n' : Nat} {x y : BufferItem}
    (hx : ⟨n, some x⟩ ∈ s.buffer.slots) (hy : ⟨n', some y⟩ ∈ s'.buffer.slots)
    (hid : y.blockId = x.blockId) :
    n' = n ∧ x.stage ≤ y.stage ∧ y.origin = x.origin := by
  induction es generalizing s h n x with
  | nil =>
    cases hc
    obtain ⟨p, hp, hi⟩ := hr.invariant
    exact Pipeline.advanced_of_mem_or_fresh hi.wellFormed (fun y hy => .inl hy) _
      (hp.mem_items hx) _ (hp.mem_items hy) hid
  | cons e es ih =>
    obtain ⟨s'', hend, ha, hok, hc⟩ := checkRun_cons_eq_some hc
    obtain ⟨p, p', outs, hp, hi, hs, hp'⟩ := hr.turn ha hok
    have hadv := hs.advanced hi.wellFormed fun b hb hb' => ha.fresh b hb (hi.ids_pushed b hb')
    by_cases hkept : x.blockId ∈ p'.ids
    · obtain ⟨⟨m, z⟩, hz, hzid⟩ := List.mem_map.mp hkept
      obtain ⟨rfl, hxz⟩ := hadv _ (hp.mem_items hx) _ hz hzid
      obtain ⟨rfl, hzy⟩ := ih (hr.step hend ha hok) hc (hp'.mem_slots hz) (hid.trans hzid.symm)
      exact ⟨rfl, hxz.trans hzy⟩
    · have hpushed : x.blockId ∈ pushedIds (h ++ [e]) := by
        simp [hi.ids_pushed _ (List.mem_map_of_mem (·.2.blockId) (hp.mem_items hx))]
      refine absurd (List.mem_map_of_mem BufferItem.blockId (List.mem_filterMap.mpr ⟨_, hy, rfl⟩))
        (hid ▸ checkRun_not_mem_blockIds (hr.step hend ha hok) hpushed ?_ hc)
      rwa [hp'.blockIds]

/-- One batch, then its execution: the Ordered item at node 0 becomes Executed there.
Source: none: witness
Kind: L -/
theorem reachable_items_only_advance_executed :
    let x := BufferItem.ordered (batch 1).toItem
    let y := BufferItem.executed ((batch 1).toItem.advanceToExecuted [⟨1, 11⟩])
    ∃ s s', Reachable quorumOfTwo Admissible s [.orderedBlocks (batch 1)] ∧
      checkRun quorumOfTwo s [.orderedBlocks (batch 1)] [.executionResponse (executedBatch 1)] =
        some s' ∧
      ⟨0, some x⟩ ∈ s.buffer.slots ∧ ⟨0, some y⟩ ∈ s'.buffer.slots ∧ y.blockId = x.blockId ∧
      (0 = 0 ∧ x.stage ≤ y.stage ∧ y.origin = x.origin) := by
  intro x y
  obtain ⟨s, hr, hx, hrun⟩ := @exists_reachable_of_checkRun quorumOfTwo 0 [.orderedBlocks (batch 1)]
    (fun s => ⟨0, some x⟩ ∈ s.buffer.slots ∧
      ((checkRun quorumOfTwo s [.orderedBlocks (batch 1)]
        [.executionResponse (executedBatch 1)]).map fun s' => decide (⟨0, some y⟩ ∈ s'.buffer.slots)) =
        some true) _ (by decide)
  obtain ⟨s', hc, hy⟩ : ∃ s', checkRun quorumOfTwo s [.orderedBlocks (batch 1)]
      [.executionResponse (executedBatch 1)] = some s' ∧ ⟨0, some y⟩ ∈ s'.buffer.slots := by
    rcases hc : checkRun quorumOfTwo s [.orderedBlocks (batch 1)]
      [.executionResponse (executedBatch 1)] with _ | s'
    · simp [hc] at hrun
    · exact ⟨s', rfl, by simpa [hc] using hrun⟩
  exact ⟨s, s', hr, hc, hx, hy, rfl, reachable_items_only_advance hr hc hx hy rfl⟩

end Runs

end BufferManager
