import BufferManager.Types

/-!
# `StateStore`: account state sets into the change set

`storage/libradb/src/state_store/mod.rs` is the glue between the Jellyfish Merkle tree and the
schema database. `put_account_state_sets` hashes the addresses of each account state set, asks
the tree for the new root hashes and its update batch, and writes that batch into the caller's
`ChangeSet`: the new nodes, then the index of the nodes they retire, with four counter bumps. The
tree, the database and the schema codecs live in crates outside this slice, so they are
parameters: `JellyfishMerkleTree` is the pair of tree operations the store calls, each reading
nodes through the store's `get_node`; `encodes` says which rows `SchemaBatch::put` can encode.

`cs` is a `&mut ChangeSet` and each `?` returns at once, so the function is a computation in
`EStateM`, whose result carries the change set on an error too: what the writes before the error
left in it.

* **`putAccountStateSets_ok`**: when the tree answers and every row encodes, the call returns the
  tree's root hashes, appends exactly the tree's nodes and then its stale-node index, in the
  tree's order, and bumps each counter by the size the tree reported for it
  (`TreeUpdateBatch.counterBumps`).
* **`putAccountStateSets_encode_error`**: a node that does not encode fails the call, and the
  change set keeps the two creation bumps and the nodes written before it: nothing is rolled
  back. A tree error leaves the change set as it was (`putAccountStateSets_tree_error`).
* `getNode_eq`: `get_node` returns the stored node, or the error that names the missing key.

The loops over the batches are `List.forM` of one put (`putRow`); `forM_putRow_ok` and
`forM_putRow_error` run them by induction on the rows.
-/

namespace BufferManager

namespace LibraDB

/-! ## The values the store passes along -/

/-- An account address. Source: `types::account_address::AccountAddress`. Kind: D -/
abbrev AccountAddress := Nat

/-- An account state blob. Source: `types::account_state_blob::AccountStateBlob`. Kind: D -/
abbrev AccountStateBlob := Nat

/-- A ledger version. Source: `types::transaction::Version`. Kind: D -/
abbrev Version := Nat

/-- The key of a tree node. Source: `jellyfish_merkle::node_type::NodeKey`. Kind: D -/
abbrev NodeKey := Nat

/-- A tree node. Source: `jellyfish_merkle::node_type::Node`. Kind: D -/
abbrev Node := Nat

/-- An entry of the index of retired nodes. Source: `jellyfish_merkle::StaleNodeIndex`. Kind: D -/
abbrev StaleNodeIndex := Nat

/-- A proof of an account state against a root.
Source: `types::proof::SparseMerkleProof`
Kind: D -/
abbrev SparseMerkleProof := Nat

/-- What the tree returns with the new root hashes.
Source: `jellyfish_merkle::TreeUpdateBatch`, as `put_account_state_sets` (52–100) reads it
Kind: D -/
structure TreeUpdateBatch where
  /-- `node_batch`: the new nodes, by key. -/
  nodeBatch : List (NodeKey × Node)
  /-- `stale_node_index_batch`: the nodes the new ones retire. -/
  staleNodeIndexBatch : List StaleNodeIndex
  /-- `num_new_leaves`. -/
  numNewLeaves : Nat
  /-- `num_stale_leaves`. -/
  numStaleLeaves : Nat
deriving DecidableEq, Repr

/-- The errors the store returns: one of the tree or of the database read, a row that a codec
cannot encode, and the node that `get_node` does not find.
Source: `failure::Error`, as the `?`s of `mod.rs` and its `format_err!` (108) produce it
Kind: D -/
inductive StoreError
  /-- An error the tree or the database returned, by its code. -/
  | backend (code : Nat)
  /-- `encode_key` or `encode_value` failed in `SchemaBatch::put`. -/
  | encode
  /-- `format_err!("Failed to find node with node_key {:?}", node_key)`. -/
  | nodeNotFound (nodeKey : NodeKey)
deriving DecidableEq, Repr

/-- The counters the store bumps; the other counters of the ledger are left out.
Source: `crate::ledger_counters::LedgerCounter`, the four of `put_account_state_sets` (71–92)
Kind: D -/
inductive LedgerCounter
  | stateNodesCreated
  | stateBlobsCreated
  | stateNodesRetired
  | stateBlobsRetired
deriving DecidableEq, Repr

/-- A row put into the schema batch.
Source: `cs.batch.put::<JellyfishMerkleNodeSchema>` (82), `cs.batch.put::<StaleNodeIndexSchema>`
(96)
Kind: D -/
inductive Row
  /-- A node of `JellyfishMerkleNodeSchema`, under its key. -/
  | node (nodeKey : NodeKey) (node : Node)
  /-- An entry of `StaleNodeIndexSchema`, with the unit value. -/
  | staleNodeIndex (index : StaleNodeIndex)
deriving DecidableEq, Repr

/-- The change set of a database write.
Source: `crate::change_set::ChangeSet`
Kind: D -/
structure ChangeSet where
  /-- `batch`: the rows put, in order; the database applies them in that order. -/
  batch : List Row
  /-- `counter_bumps`: how much each counter goes up. -/
  counterBumps : LedgerCounter → Nat

/-- `counter_bumps.bump(counter, by)`: add `by` to one counter.
Source: `LedgerCounterBumps::bump`, as `put_account_state_sets` (71–92) calls it
Kind: D -/
def ChangeSet.bump (cs : ChangeSet) (counter : LedgerCounter) (n : Nat) : ChangeSet :=
  { cs with
    counterBumps := fun c => if c = counter then cs.counterBumps c + n else cs.counterBumps c }

/-- Source: none: infrastructure. Kind: L -/
@[simp] theorem ChangeSet.batch_bump (cs : ChangeSet) (counter : LedgerCounter) (n : Nat) :
    (cs.bump counter n).batch = cs.batch := rfl

/-- Source: none: infrastructure. Kind: L -/
@[simp] theorem ChangeSet.counterBumps_bump (cs : ChangeSet) (counter c : LedgerCounter) (n : Nat) :
    (cs.bump counter n).counterBumps c =
      if c = counter then cs.counterBumps c + n else cs.counterBumps c := rfl

/-- The tree operations the store calls, each reading nodes through a reader.
Source: `jellyfish_merkle::JellyfishMerkleTree::{put_blob_sets, get_with_proof}`
Kind: D -/
structure JellyfishMerkleTree where
  /-- `put_blob_sets(blob_sets, first_version)`: the root hash after each set, and the batch. -/
  putBlobSets : (NodeKey → Except StoreError Node) → List (List (HashValue × AccountStateBlob)) →
    Version → Except StoreError (List HashValue × TreeUpdateBatch)
  /-- `get_with_proof(key, version)`. -/
  getWithProof : (NodeKey → Except StoreError Node) → HashValue → Version →
    Except StoreError (Option AccountStateBlob × SparseMerkleProof)

/-- The store: a handle on the database, read here through its node schema.
Source: `StateStore` (30–32); `StateStore::new` (35–37)
Kind: D -/
structure StateStore where
  /-- `db.get::<JellyfishMerkleNodeSchema>(node_key)`: the node stored under a key, if any. -/
  db : NodeKey → Except StoreError (Option Node)

/-- How much `put_account_state_sets` bumps each counter for one tree update batch.
Source: `put_account_state_sets` (71–92)
Kind: D -/
def TreeUpdateBatch.counterBumps (tub : TreeUpdateBatch) : LedgerCounter → Nat
  | .stateNodesCreated => tub.nodeBatch.length
  | .stateBlobsCreated => tub.numNewLeaves
  | .stateNodesRetired => tub.staleNodeIndexBatch.length
  | .stateBlobsRetired => tub.numStaleLeaves

/-- The rows `put_account_state_sets` writes for one tree update batch, in order.
Source: `put_account_state_sets` (80–98)
Kind: D -/
def TreeUpdateBatch.rows (tub : TreeUpdateBatch) : List Row :=
  tub.nodeBatch.map (fun x => .node x.1 x.2) ++ tub.staleNodeIndexBatch.map .staleNodeIndex

/-- Running a bind: the first computation, then the second on its value, unless it failed.
Source: none: infrastructure
Kind: L -/
theorem estate_bind_apply {ε σ α β : Type} (x : EStateM ε σ α) (f : α → EStateM ε σ β) (s : σ) :
    (x >>= f) s = match x s with
      | .ok a s => f a s
      | .error e s => .error e s := rfl

/-- Source: none: infrastructure. Kind: L -/
theorem estate_run_apply {ε σ α : Type} (x : EStateM ε σ α) (s : σ) : x.run s = x s := rfl

namespace StateStore

/-! ## The store's functions -/

variable (store : StateStore) (jmt : JellyfishMerkleTree) (hash : AccountAddress → HashValue)
  (encodes : Row → Bool)

/-- `TreeReader::get_node`: the stored node, or an error that names the key.
Source: `impl TreeReader for StateStore` (103–110)
Kind: D -/
def getNode (nodeKey : NodeKey) : Except StoreError Node := do
  match ← store.db nodeKey with
  | some node => pure node
  | none => throw (.nodeNotFound nodeKey)

/-- The account state under an address at a version, with its proof.
Source: `get_account_state_with_proof_by_version` (40–49)
Kind: D -/
def getAccountStateWithProofByVersion (address : AccountAddress) (version : Version) :
    Except StoreError (Option AccountStateBlob × SparseMerkleProof) := do
  let (blob, proof) ← jmt.getWithProof (getNode store) (hash address) version
  pure (blob, proof)

/-- `cs.batch.put::<S>(key, value)`: encode the row and append it, or fail and leave the batch.
Source: `SchemaBatch::put`, as `put_account_state_sets` (82, 96) calls it
Kind: D -/
def putRow (row : Row) : EStateM StoreError ChangeSet Unit := fun cs =>
  if encodes row then .ok () { cs with batch := cs.batch ++ [row] } else .error .encode cs

/-- The addresses' hashes, set by set, as the tree receives them.
Source: `put_account_state_sets` (58–66)
Kind: D -/
def blobSets (accountStateSets : List (List (AccountAddress × AccountStateBlob))) :
    List (List (HashValue × AccountStateBlob)) :=
  accountStateSets.map fun accountStates => accountStates.map fun (addr, blob) => (hash addr, blob)

/-- Hash the addresses, let the tree compute the roots and the batch, and write the batch into the
change set with its counter bumps; each `collect::<Result<_>>()?` stops at the first row that
fails.
Source: `put_account_state_sets` (52–100)
Kind: D -/
def putAccountStateSets (accountStateSets : List (List (AccountAddress × AccountStateBlob)))
    (firstVersion : Version) : EStateM StoreError ChangeSet (List HashValue) := do
  let (newRootHashVec, treeUpdateBatch) ←
    match jmt.putBlobSets (getNode store) (blobSets hash accountStateSets) firstVersion with
    | .ok r => pure r
    | .error e => throw e
  modify (·.bump .stateNodesCreated treeUpdateBatch.nodeBatch.length)
  modify (·.bump .stateBlobsCreated treeUpdateBatch.numNewLeaves)
  treeUpdateBatch.nodeBatch.forM fun (nodeKey, node) => putRow encodes (.node nodeKey node)
  modify (·.bump .stateNodesRetired treeUpdateBatch.staleNodeIndexBatch.length)
  modify (·.bump .stateBlobsRetired treeUpdateBatch.numStaleLeaves)
  treeUpdateBatch.staleNodeIndexBatch.forM fun row => putRow encodes (.staleNodeIndex row)
  pure newRootHashVec

/-! ## Reading a node -/

/-- **`get_node` returns the stored node, or the error naming the missing key**; a database error
passes through. Source: `impl TreeReader for StateStore` (103–110). Kind: L -/
theorem getNode_eq (nodeKey : NodeKey) :
    getNode store nodeKey = match store.db nodeKey with
      | .ok (some node) => .ok node
      | .ok none => .error (.nodeNotFound nodeKey)
      | .error e => .error e := by
  unfold getNode
  rcases store.db nodeKey with e | _ | node <;> rfl

/-! ## The write loops -/

/-- One put per row of `l`, each of which encodes: the rows are appended in order.
Source: `put_account_state_sets` (80–84, 94–98)
Kind: L -/
theorem forM_putRow_ok {α : Type} (g : α → Row) (l : List α) (h : ∀ x ∈ l, encodes (g x) = true)
    (cs : ChangeSet) :
    (l.forM fun x => putRow encodes (g x)) cs =
      .ok () { cs with batch := cs.batch ++ l.map g } := by
  induction l generalizing cs with
  | nil => simp [pure, EStateM.pure]
  | cons x l ih =>
    have hx : encodes (g x) = true := h x (List.mem_cons_self x l)
    simp [estate_bind_apply, putRow, hx, ih (fun y hy => h y (List.mem_cons_of_mem x hy))]

/-- One put per row of `pre ++ x :: post`, where the rows of `pre` encode and `x` does not: the
loop stops at `x` with the rows of `pre` appended.
Source: `put_account_state_sets` (80–84, 94–98)
Kind: L -/
theorem forM_putRow_error {α : Type} (g : α → Row) (pre : List α) (x : α) (post : List α)
    (hpre : ∀ y ∈ pre, encodes (g y) = true) (hx : encodes (g x) = false) (cs : ChangeSet) :
    ((pre ++ x :: post).forM fun y => putRow encodes (g y)) cs =
      .error .encode { cs with batch := cs.batch ++ pre.map g } := by
  induction pre generalizing cs with
  | nil => simp [estate_bind_apply, putRow, hx]
  | cons y pre ih =>
    have hy : encodes (g y) = true := hpre y (List.mem_cons_self y pre)
    rw [List.cons_append, List.forM_cons', estate_bind_apply]
    simp only [putRow, hy, if_true]
    rw [ih (fun z hz => hpre z (List.mem_cons_of_mem y hz))]
    simp

/-! ## Writing the account state sets -/

/-- A batch of three new nodes, `2`, `4` and `6` under keys `1`, `3` and `5`, with two new leaves,
that retires the index entries `7` and `8` and one leaf.
Source: none: a concrete input
Kind: D -/
def threeNodeBatch : TreeUpdateBatch := ⟨[(1, 2), (3, 4), (5, 6)], [7, 8], 2, 1⟩

/-- A tree that answers every write with one root per account state set, numbered from the first
version, and `threeNodeBatch`.
Source: none: a concrete tree
Kind: D -/
def threeNodeTree : JellyfishMerkleTree :=
  ⟨fun _ sets firstVersion => .ok ((List.range sets.length).map (firstVersion + ·), threeNodeBatch),
    fun _ _ _ => .ok (none, 0)⟩

/-- A store with no node. Source: none: a concrete store. Kind: D -/
def emptyStore : StateStore := ⟨fun _ => .ok none⟩

/-- A change set with no row and no bump. Source: none: a concrete input. Kind: D -/
def emptyChangeSet : ChangeSet := ⟨[], fun _ => 0⟩

/-- Codecs that encode every row but one. Source: none: a concrete codec. Kind: D -/
def encodesAllBut (bad : Row) (row : Row) : Bool := row != bad

variable {store jmt hash encodes}

/-- **A tree error leaves the change set as it was.**
Source: `put_account_state_sets` (68–69)
Kind: L -/
theorem putAccountStateSets_tree_error
    {accountStateSets : List (List (AccountAddress × AccountStateBlob))} {firstVersion : Version}
    {e : StoreError}
    (htree : jmt.putBlobSets (getNode store) (blobSets hash accountStateSets) firstVersion =
      .error e) (cs : ChangeSet) :
    (putAccountStateSets store jmt hash encodes accountStateSets firstVersion).run cs =
      .error e cs := by
  simp only [putAccountStateSets, estate_run_apply, htree]
  rfl

/-- **Writing the account state sets, when the tree answers and every row encodes**: the call
returns the tree's root hashes, appends exactly the tree's nodes and then its stale-node index,
in the tree's order, and bumps each counter by the count the tree reported for it.
Source: `put_account_state_sets` (52–100)
Kind: P -/
theorem putAccountStateSets_ok
    {accountStateSets : List (List (AccountAddress × AccountStateBlob))} {firstVersion : Version}
    {roots : List HashValue} {tub : TreeUpdateBatch}
    (htree : jmt.putBlobSets (getNode store) (blobSets hash accountStateSets) firstVersion =
      .ok (roots, tub))
    (hencode : ∀ r ∈ tub.rows, encodes r = true) (cs : ChangeSet) :
    (putAccountStateSets store jmt hash encodes accountStateSets firstVersion).run cs =
      .ok roots
        { batch := cs.batch ++ tub.rows
          counterBumps := fun c => cs.counterBumps c + tub.counterBumps c } := by
  simp only [TreeUpdateBatch.rows, List.mem_append, List.mem_map] at hencode
  have hnodes := forM_putRow_ok encodes (fun x : NodeKey × Node => Row.node x.1 x.2) tub.nodeBatch
    (fun x hx => hencode _ (.inl ⟨x, hx, rfl⟩))
  have hstale := forM_putRow_ok encodes Row.staleNodeIndex tub.staleNodeIndexBatch
    (fun x hx => hencode _ (.inr ⟨x, hx, rfl⟩))
  simp only [putAccountStateSets, estate_run_apply, htree, bind, EStateM.bind, pure, EStateM.pure,
    modify, modifyGet, MonadStateOf.modifyGet, EStateM.modifyGet, hnodes, hstale]
  simp only [ChangeSet.mk.injEq, EStateM.Result.ok.injEq, TreeUpdateBatch.rows, true_and]
  refine ⟨by simp, funext fun c => ?_⟩
  cases c <;> simp [TreeUpdateBatch.counterBumps]

/-- Two account state sets written into an empty change set: three nodes, then two stale-index
rows, and the four bumps. Source: none: witness. Kind: L -/
theorem putAccountStateSets_ok_threeNodes :
    threeNodeTree.putBlobSets (getNode emptyStore) (blobSets id [[(5, 6)], [(9, 10)]]) 7 =
      .ok ([7, 8], threeNodeBatch) ∧
    threeNodeBatch.rows =
      [.node 1 2, .node 3 4, .node 5 6, .staleNodeIndex 7, .staleNodeIndex 8] ∧
    (∀ r ∈ threeNodeBatch.rows, encodesAllBut (.node 0 0) r = true) ∧
    (putAccountStateSets emptyStore threeNodeTree id (encodesAllBut (.node 0 0))
        [[(5, 6)], [(9, 10)]] 7).run emptyChangeSet =
      .ok [7, 8]
        { batch := emptyChangeSet.batch ++ threeNodeBatch.rows
          counterBumps := fun c => emptyChangeSet.counterBumps c + threeNodeBatch.counterBumps c } :=
  ⟨rfl, rfl, by decide, putAccountStateSets_ok rfl (by decide) emptyChangeSet⟩

/-- **A node that does not encode fails the call after the change set was written**: the
creation counters are bumped by the whole batch and the nodes before the failing one are
written, and the error returns without undoing them.
Source: `put_account_state_sets` (71–84)
Kind: P -/
theorem putAccountStateSets_encode_error
    {accountStateSets : List (List (AccountAddress × AccountStateBlob))} {firstVersion : Version}
    {roots : List HashValue} {tub : TreeUpdateBatch} {pre post : List (NodeKey × Node)}
    {nodeKey : NodeKey} {node : Node}
    (htree : jmt.putBlobSets (getNode store) (blobSets hash accountStateSets) firstVersion =
      .ok (roots, tub))
    (hsplit : tub.nodeBatch = pre ++ (nodeKey, node) :: post)
    (hpre : ∀ x ∈ pre, encodes (.node x.1 x.2) = true)
    (hfail : encodes (.node nodeKey node) = false)
    (cs : ChangeSet) :
    (putAccountStateSets store jmt hash encodes accountStateSets firstVersion).run cs =
      .error .encode
        { (cs.bump .stateNodesCreated tub.nodeBatch.length).bump .stateBlobsCreated tub.numNewLeaves
          with batch := cs.batch ++ pre.map fun x => .node x.1 x.2 } := by
  have hnodes := forM_putRow_error encodes (fun x : NodeKey × Node => Row.node x.1 x.2) pre
    (nodeKey, node) post hpre hfail
  simp only [putAccountStateSets, estate_run_apply, htree, bind, EStateM.bind, pure, EStateM.pure,
    modify, modifyGet, MonadStateOf.modifyGet, EStateM.modifyGet]
  rw [hsplit, hnodes]
  rfl

/-- The second node of the batch does not encode: the creation bumps for all three nodes stay,
and so does the first node, written before it. Source: none: witness. Kind: L -/
theorem putAccountStateSets_encode_error_second :
    threeNodeTree.putBlobSets (getNode emptyStore) (blobSets id [[(5, 6)], [(9, 10)]]) 7 =
      .ok ([7, 8], threeNodeBatch) ∧
    threeNodeBatch.nodeBatch = [(1, 2)] ++ (3, 4) :: [(5, 6)] ∧
    (∀ x ∈ [((1 : NodeKey), (2 : Node))], encodesAllBut (.node 3 4) (.node x.1 x.2) = true) ∧
    encodesAllBut (.node 3 4) (.node 3 4) = false ∧
    (putAccountStateSets emptyStore threeNodeTree id (encodesAllBut (.node 3 4))
        [[(5, 6)], [(9, 10)]] 7).run emptyChangeSet =
      .error .encode
        { (emptyChangeSet.bump .stateNodesCreated threeNodeBatch.nodeBatch.length).bump
            .stateBlobsCreated threeNodeBatch.numNewLeaves
          with
          batch := emptyChangeSet.batch ++ [((1 : NodeKey), (2 : Node))].map fun x => .node x.1 x.2 } :=
  ⟨rfl, rfl, by decide, by decide,
    putAccountStateSets_encode_error rfl rfl (by decide) (by decide) emptyChangeSet⟩

end StateStore

end LibraDB

end BufferManager
