import BufferManager.Types

/-!
# The ordered buffer: a linked list with stable cursors (spec §4.2)

`linkedlist.rs` is not part of this slice; `buffer_manager.rs` imports from it `List`, `Link` and
the free functions `find_elem`, `get_elem`, `get_next`, `link_eq`, `set_elem`, `take_elem`. It is
modelled from spec §4.2 as a sequence of *slots*, each a node identity with an element that
`take_elem` can leave empty (the spec's "empty-but-addressable" slot):

* `LinkedList α` carries its slots, the next fresh node identity, and as fields the two facts that
  make node identities pointer identities: they are pairwise distinct and all below `nextNode`;
* a `Link` is `Option Nat`, a node or nothing. A node popped from the list is no longer among the
  slots: `pop_front` has taken its element and its `next`, so reading it faults (`Fault.unwrapNone`);
* `findElem` is the free `find_elem(link, test)`: it sees only the link, so `None` finds nothing,
  and from a node it scans forward along `next`.

The lemmas compute these operations on a list whose slots all hold an element (`Slot.full`), the
shape every reachable buffer has: `findFrom_map_full`, `suffixFrom_append_of_not_mem`,
`lookup_map_full`.
-/

namespace BufferManager

/-! ## Slots and lists -/

/-- Modelled from the spec (§4.2): one node of the list, its identity and its element, which
`take_elem` empties and `set_elem` refills.
Source: `linkedlist::Node` (missing); spec §4.2
Kind: D -/
structure Slot (α : Type) where
  /-- The node's identity (its address). -/
  node : Nat
  /-- The element, `none` between `take_elem` and `set_elem`. -/
  elem : Option α
deriving DecidableEq, Repr

/-- `Link<T>`: a cursor, either no node or one node. Source: `linkedlist::Link`. Kind: D -/
abbrev Link := Option Nat

/-- Modelled from the spec (§4.2): the list, head first. Node identities are distinct and below
`nextNode`, the identity the next `push_back` allocates.
Source: `linkedlist::List` (missing); spec §4.2
Kind: D -/
structure LinkedList (α : Type) where
  /-- The nodes, head first. -/
  slots : List (Slot α)
  /-- The identity of the next node `push_back` allocates. -/
  nextNode : Nat
  /-- Distinct nodes have distinct identities. -/
  nodup : (slots.map Slot.node).Nodup
  /-- Every identity in use was allocated before. -/
  lt_nextNode : ∀ s ∈ slots, s.node < nextNode
deriving DecidableEq

/-- A slot holding an element. Source: none: infrastructure. Kind: D -/
def Slot.full {α : Type} (p : Nat × α) : Slot α := ⟨p.1, some p.2⟩

/-- Replace the element of node `n`, leaving every other slot alone.
Source: none: infrastructure
Kind: D -/
def Slot.setAt {α : Type} (n : Nat) (e : Option α) (s : Slot α) : Slot α :=
  if s.node = n then { s with elem := e } else s

/-- Source: none: infrastructure. Kind: L -/
@[simp] theorem Slot.node_setAt {α : Type} (n : Nat) (e : Option α) (s : Slot α) :
    (s.setAt n e).node = s.node := by
  unfold Slot.setAt; split <;> rfl

/-- Source: none: infrastructure. Kind: L -/
@[simp] theorem Slot.node_comp_setAt {α : Type} (n : Nat) (e : Option α) :
    Slot.node ∘ Slot.setAt n e = Slot.node := funext (Slot.node_setAt n e)

namespace LinkedList

variable {α : Type}

/-- `List::new()`. Source: `StateManager::new`. Kind: D -/
def new : LinkedList α := ⟨[], 0, List.nodup_nil, fun _ h => (List.not_mem_nil _ h).elim⟩

/-- `list.head`: the first node, if any. Source: `buffer.head`. Kind: D -/
def head (l : LinkedList α) : Link := l.slots.head?.map Slot.node

/-- `push_back(elem)`: a fresh node at the tail. Source: spec §4.2; `process_ordered_blocks`. Kind: D -/
def pushBack (l : LinkedList α) (x : α) : LinkedList α where
  slots := l.slots ++ [⟨l.nextNode, some x⟩]
  nextNode := l.nextNode + 1
  nodup := by
    rw [List.map_append, List.nodup_append]
    exact ⟨l.nodup, by simp, by simpa using fun s hs h => (l.lt_nextNode s hs).ne h⟩
  lt_nextNode := by
    simp only [List.mem_append, List.mem_singleton]
    rintro s (hs | rfl)
    · exact Nat.lt_succ_of_lt (l.lt_nextNode s hs)
    · exact Nat.lt_succ_self _

/-- `k` calls of `pop_front()`: the first `k` nodes leave the list.
Source: spec §4.2; the loop of `advance_head`
Kind: D -/
def dropFront (l : LinkedList α) (k : Nat) : LinkedList α where
  slots := l.slots.drop k
  nextNode := l.nextNode
  nodup := l.nodup.sublist ((List.drop_sublist _ _).map _)
  lt_nextNode s hs := l.lt_nextNode s (List.mem_of_mem_drop hs)

/-- The slots from node `n` on, or `none` when `n` is not in the list.
Source: none: infrastructure (following `next` from a node)
Kind: D -/
def suffixFrom : List (Slot α) → Nat → Option (List (Slot α))
  | [], _ => none
  | s :: rest, n => if s.node = n then some (s :: rest) else suffixFrom rest n

/-- The scan of `find_elem` along `next`: the first node whose element passes `test`. Reading an
empty slot faults, as `get_elem` unwraps it.
Source: `find_elem` (missing); spec §4.2 `find`
Kind: D -/
def findFrom (test : α → Bool) : List (Slot α) → Except Fault Link
  | [] => .ok none
  | ⟨_, none⟩ :: _ => .error .unwrapNone
  | ⟨n, some x⟩ :: rest => if test x then .ok (some n) else findFrom test rest

/-- `find_elem(link, test)`: from the link's node forward, the first node whose element passes
`test`. The free function sees only the link: from `None` it finds nothing, and from a node popped
off the list it faults on the taken element.
Source: `find_elem` (missing); calls in `buffer_manager.rs` 156, 170, 262, 290, 318, 348
Kind: D -/
def findElem (l : LinkedList α) (link : Link) (test : α → Bool) : Except Fault Link :=
  match link with
  | none => .ok none
  | some n =>
    match suffixFrom l.slots n with
    | none => .error .unwrapNone
    | some rest => findFrom test rest

/-- The element slot of node `n`: `none` if the node is not in the list.
Source: none: infrastructure
Kind: D -/
def lookup (l : LinkedList α) (n : Nat) : Option (Option α) :=
  (l.slots.find? (·.node = n)).map Slot.elem

/-- `get_elem(link)`: the element of the link's node; faults on `None`, on a popped node and on an
empty slot. Source: `get_elem` (missing); spec §4.2 `get`. Kind: D -/
def getElem (l : LinkedList α) (link : Link) : Except Fault α :=
  match link.bind l.lookup with
  | some (some x) => .ok x
  | _ => .error .unwrapNone

/-- `set_elem(link, elem)` on node `n`. Writing to a popped node changes nothing in the list.
Source: `set_elem` (missing); spec §4.2 `set`
Kind: D -/
def setElem (l : LinkedList α) (n : Nat) (x : α) : LinkedList α where
  slots := l.slots.map (Slot.setAt n (some x))
  nextNode := l.nextNode
  nodup := by rw [List.map_map, Slot.node_comp_setAt]; exact l.nodup
  lt_nextNode s hs := by
    obtain ⟨t, ht, rfl⟩ := List.mem_map.mp hs
    rw [Slot.node_setAt]; exact l.lt_nextNode t ht

/-- `take_elem(link)` on node `n`: the element, and the list with the slot left empty. Faults where
`get_elem` does. Source: `take_elem` (missing); spec §4.2 `take`. Kind: D -/
def takeElem (l : LinkedList α) (n : Nat) : Except Fault (α × LinkedList α) :=
  match l.lookup n with
  | some (some x) =>
    .ok (x, { slots := l.slots.map (Slot.setAt n none), nextNode := l.nextNode,
              nodup := by rw [List.map_map, Slot.node_comp_setAt]; exact l.nodup,
              lt_nextNode := fun s hs => by
                obtain ⟨t, ht, rfl⟩ := List.mem_map.mp hs
                rw [Slot.node_setAt]; exact l.lt_nextNode t ht })
  | _ => .error .unwrapNone

/-! ## The operations on a list of full slots -/

/-- The scan over full slots is `List.find?` on the elements. Source: none: infrastructure. Kind: L -/
theorem findFrom_map_full (t : α → Bool) (xs : List (Nat × α)) :
    findFrom t (xs.map Slot.full) = .ok ((xs.find? (fun p => t p.2)).map Prod.fst) := by
  induction xs with
  | nil => rfl
  | cons x xs ih => by_cases h : t x.2 <;> simp [findFrom, Slot.full, h, ih]

/-- Nodes before `n` are skipped when looking for `n`. Source: none: infrastructure. Kind: L -/
theorem suffixFrom_append_of_not_mem {xs : List (Slot α)} {n : Nat}
    (h : n ∉ xs.map Slot.node) (ys : List (Slot α)) : suffixFrom (xs ++ ys) n = suffixFrom ys n := by
  induction xs with
  | nil => rfl
  | cons x xs ih =>
    simp only [List.map_cons, List.mem_cons, not_or] at h
    simp [suffixFrom, Ne.symm h.1, ih h.2]

/-- Source: none: infrastructure. Kind: L -/
@[simp] theorem suffixFrom_cons_self (x : Slot α) (ys : List (Slot α)) :
    suffixFrom (x :: ys) x.node = some (x :: ys) := by
  simp [suffixFrom]

/-- In a list of distinct nodes, looking a node up finds its own slot.
Source: none: infrastructure
Kind: L -/
theorem find?_node_eq_of_mem {xs : List (Slot α)} (hnd : (xs.map Slot.node).Nodup) {x : Slot α}
    (hx : x ∈ xs) : xs.find? (·.node = x.node) = some x := by
  induction xs with
  | nil => cases hx
  | cons y ys ih =>
    simp only [List.map_cons, List.nodup_cons, List.mem_map] at hnd
    rcases List.mem_cons.mp hx with rfl | hx
    · simp
    · have hne : ¬ y.node = x.node := fun h => hnd.1 ⟨x, hx, h.symm⟩
      simp [List.find?_cons, hne, ih hnd.2 hx]

/-- `lookup` finds a slot of the list. Source: none: infrastructure. Kind: L -/
theorem lookup_of_mem {l : LinkedList α} {x : Slot α} (hx : x ∈ l.slots) :
    l.lookup x.node = some x.elem := by
  simp [lookup, find?_node_eq_of_mem l.nodup hx]

/-- `get_elem` of a full slot. Source: none: infrastructure. Kind: L -/
theorem getElem_of_mem {l : LinkedList α} {n : Nat} {x : α} (h : ⟨n, some x⟩ ∈ l.slots) :
    l.getElem (some n) = .ok x := by
  simp [getElem, lookup_of_mem h]

/-- `take_elem` of a full slot returns its element. Source: none: infrastructure. Kind: L -/
theorem takeElem_of_mem {l : LinkedList α} {n : Nat} {x : α} (h : ⟨n, some x⟩ ∈ l.slots) :
    ∃ l', l.takeElem n = .ok (x, l') ∧ l'.slots = l.slots.map (Slot.setAt n none) ∧
      l'.nextNode = l.nextNode := by
  simp [takeElem, lookup_of_mem h]

/-- Refilling a slot after emptying it is filling it. Source: none: infrastructure. Kind: L -/
@[simp] theorem setAt_comp_setAt (n : Nat) (e e' : Option α) :
    Slot.setAt n e ∘ Slot.setAt n e' = Slot.setAt n e := by
  funext s; unfold Slot.setAt; by_cases h : s.node = n <;> simp [h]

/-- Source: none: infrastructure. Kind: L -/
@[simp] theorem setElem_slots (l : LinkedList α) (n : Nat) (x : α) :
    (l.setElem n x).slots = l.slots.map (Slot.setAt n (some x)) := rfl

/-- Source: none: infrastructure. Kind: L -/
@[simp] theorem dropFront_slots (l : LinkedList α) (k : Nat) :
    (l.dropFront k).slots = l.slots.drop k := rfl

/-- Source: none: infrastructure. Kind: L -/
@[simp] theorem pushBack_slots (l : LinkedList α) (x : α) :
    (l.pushBack x).slots = l.slots ++ [⟨l.nextNode, some x⟩] := rfl

/-- Source: none: infrastructure. Kind: L -/
theorem head_eq (l : LinkedList α) : l.head = l.slots.head?.map Slot.node := rfl

/-- Filling node `n` in a list of full slots where `n` occurs once, at a known place.
Source: none: infrastructure
Kind: L -/
theorem map_setAt_full {xs ys : List (Nat × α)} {n : Nat} {x y : α}
    (hxs : n ∉ xs.map Prod.fst) (hys : n ∉ ys.map Prod.fst) :
    (xs.map Slot.full ++ Slot.full (n, x) :: ys.map Slot.full).map (Slot.setAt n (some y)) =
      xs.map Slot.full ++ Slot.full (n, y) :: ys.map Slot.full := by
  have key : ∀ zs : List (Nat × α), n ∉ zs.map Prod.fst →
      (zs.map Slot.full).map (Slot.setAt n (some y)) = zs.map Slot.full := by
    intro zs hz
    simp only [List.map_map]
    refine List.map_congr_left fun z hz' => ?_
    have : z.1 ≠ n := fun h => hz (List.mem_map.mpr ⟨z, hz', h⟩)
    simp [Slot.setAt, Slot.full, this]
  simp [key xs hxs, key ys hys, Slot.setAt, Slot.full]

/-- Source: none: infrastructure. Kind: L -/
@[simp] theorem map_full_node (xs : List (Nat × α)) :
    (xs.map Slot.full).map Slot.node = xs.map Prod.fst := by
  simp only [List.map_map]; rfl

/-- The nodes of a list of full slots are distinct. Source: none: infrastructure. Kind: L -/
theorem nodup_fst_of_slots {l : LinkedList α} {xs : List (Nat × α)}
    (h : l.slots = xs.map Slot.full) : (xs.map Prod.fst).Nodup := by
  simpa [h] using l.nodup

/-- `find_elem` from a node of a list of full slots scans from that node on.
Source: none: infrastructure
Kind: L -/
theorem findElem_some_of_slots {l : LinkedList α} {A B : List (Nat × α)} {c : Nat} {x : α}
    (h : l.slots = (A ++ (c, x) :: B).map Slot.full) (t : α → Bool) :
    l.findElem (some c) t = .ok ((((c, x) :: B).find? (fun p => t p.2)).map Prod.fst) := by
  have hnd := nodup_fst_of_slots h
  have hc : c ∉ A.map Prod.fst := by
    rw [List.map_append, List.nodup_append] at hnd
    exact fun hm => hnd.2.2 hm (List.mem_cons_self _ _)
  rw [← map_full_node] at hc
  rw [← findFrom_map_full]
  simp only [findElem, h, List.map_append, suffixFrom_append_of_not_mem hc]
  simp [suffixFrom, Slot.full]

/-- `find_elem` from the head of a list of full slots scans the whole list.
Source: none: infrastructure
Kind: L -/
theorem findElem_head_of_slots {l : LinkedList α} {xs : List (Nat × α)}
    (h : l.slots = xs.map Slot.full) (t : α → Bool) :
    l.findElem l.head t = .ok ((xs.find? (fun p => t p.2)).map Prod.fst) := by
  rcases xs with _ | ⟨⟨c, x⟩, B⟩
  · simp [head_eq, h, findElem]
  · rw [show l.head = some c by simp [head_eq, h, Slot.full]]
    exact findElem_some_of_slots (A := []) h t

/-- A cursor whose prefix holds no match finds what a scan from the head finds.
Source: none: infrastructure
Kind: L -/
theorem findElem_or_head_of_slots {l : LinkedList α} {xs : List (Nat × α)}
    (h : l.slots = xs.map Slot.full) {t : α → Bool} {cursor : Link}
    (hc : ∀ c, cursor = some c → ∃ A x B, xs = A ++ (c, x) :: B ∧ ∀ a ∈ A, t a.2 = false) :
    l.findElem (cursor.or l.head) t = .ok ((xs.find? (fun p => t p.2)).map Prod.fst) := by
  rcases cursor with _ | c
  · exact findElem_head_of_slots h t
  · obtain ⟨A, x, B, rfl, hA⟩ := hc c rfl
    have hA' : A.find? (fun p => t p.2) = none := List.find?_eq_none.mpr (by simpa using hA)
    rw [Option.or_some, findElem_some_of_slots h, List.find?_append, hA', Option.none_or]

/-- The elements of a list of full slots. Source: none: infrastructure. Kind: L -/
@[simp] theorem filterMap_elem_map_full (xs : List (Nat × α)) :
    (xs.map Slot.full).filterMap Slot.elem = xs.map Prod.snd := by
  induction xs <;> simp_all [Slot.full]

/-- Filling node `c` of a list of full slots with distinct nodes.
Source: none: infrastructure
Kind: L -/
theorem map_setAt_full_of_nodup {A B : List (Nat × α)} {c : Nat} {x y : α}
    (h : ((A ++ (c, x) :: B).map Prod.fst).Nodup) :
    ((A ++ (c, x) :: B).map Slot.full).map (Slot.setAt c (some y)) =
      (A ++ (c, y) :: B).map Slot.full := by
  rw [List.map_append, List.map_cons, List.nodup_append, List.nodup_cons] at h
  simpa using map_setAt_full (y := y) (x := x) (fun hm => h.2.2 hm (List.mem_cons_self _ _)) h.2.1.1

end LinkedList

end BufferManager
