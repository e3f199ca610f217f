import BufferManager.Types

/-!
# `ProcessedVMOutput::compute_result`: the executor's summary of a block

`execution/executor/src/types.rs` keeps what the VM produced for each transaction of a block
(`TransactionData`) and the block's output (`ProcessedVMOutput`); `compute_result` summarises that
output for consensus as a `StateComputeResult`. Its loop walks the transactions once and fills
three vectors: every status, and for each kept transaction its info hash (through `expect`) and
its new-epoch events.

* **`computeResult_eq`**: the loop computes the summary said at once (the statuses of all
  transactions, then the info hashes and the new-epoch events of the kept ones, in order, with
  the output's and the caller's values passed through), and panics with `"Txn to be kept."`
  exactly when a kept transaction has no info hash.
* **`computeResult_wellFormed`**: on transactions that keep the contract documented on
  `txn_info_hash` (a hash exactly when the status is Keep), `compute_result` returns; it reports
  one status per transaction, the hashes line up with the kept transactions, and every
  reconfiguration event is a new-epoch event of a kept transaction.

The loop is `List.foldlM` of one iteration (`computeStep`); `foldlM_computeStep_of_hashed` and
`foldlM_computeStep_of_unhashed` run it by induction on the transactions. Only the fields
`compute_result` reads are kept. `ExecutedTrees`, `StateComputeResult` and `EpochState` come from
crates outside this slice: each is the record of the values `compute_result` reads or forwards,
and `on_chain_config::new_epoch_event_key()` is an argument.
-/

namespace BufferManager

/-! ## Transactions as the executor records them -/

/-- A VM status code. Source: `diem_types::vm_status::StatusCode`, `KeptVMStatus`. Kind: D -/
abbrev StatusCode := Nat

/-- The status the VM gives a transaction.
Source: `diem_types::transaction::TransactionStatus`
Kind: D -/
inductive TransactionStatus where
  /-- `Keep(KeptVMStatus)`: the transaction is committed, with the status it ran to. -/
  | keep (status : StatusCode)
  /-- `Discard(StatusCode)`. -/
  | discard (code : StatusCode)
  /-- `Retry`. -/
  | retry
deriving DecidableEq, Repr

/-- `matches!(status, TransactionStatus::Keep(_))`. Source: `compute_result` (183). Kind: D -/
def TransactionStatus.isKeep : TransactionStatus → Bool
  | keep _ => true
  | _ => false

/-- An event key. Source: `diem_types::event::EventKey`. Kind: D -/
abbrev EventKey := Nat

/-- An event a transaction emitted: the key `compute_result` compares, and the rest of the event
(sequence number, type tag and data), which it forwards as it is.
Source: `diem_types::contract_event::ContractEvent`
Kind: D -/
structure ContractEvent where
  /-- `key()`. -/
  key : EventKey
  /-- The sequence number, type tag and data, as one value. -/
  payload : Nat
deriving DecidableEq, Repr

/-- The data of one transaction that `compute_result` reads.
Source: `TransactionData` (types.rs 22–55); `TransactionData::new` (58–80)
Kind: D -/
structure TransactionData where
  /-- `events()`: the events the transaction emitted. -/
  events : List ContractEvent
  /-- `status()`: the status the VM set. -/
  status : TransactionStatus
  /-- `txn_info_hash()`. -/
  txnInfoHash : Option HashValue
deriving DecidableEq, Repr

namespace TransactionData

/-- The contract documented on the field: "The transaction info hash if the VM status output was
keep, None otherwise".
Source: `TransactionData::txn_info_hash` (53–54)
Kind: D -/
def WellFormed (t : TransactionData) : Prop :=
  t.txnInfoHash.isSome = t.status.isKeep

instance : DecidablePred WellFormed := fun t =>
  inferInstanceAs (Decidable (t.txnInfoHash.isSome = t.status.isKeep))

/-- The events whose key is the new-epoch key:
`events().iter().filter(|e| *e.key() == new_epoch_event_key)`.
Source: `compute_result` (185–190)
Kind: D -/
def newEpochEvents (newEpochEventKey : EventKey) (t : TransactionData) : List ContractEvent :=
  t.events.filter (·.key == newEpochEventKey)

end TransactionData

/-! ## The block's output and its summary -/

/-- The transaction accumulator after the block, by the values `compute_result` forwards.
Source: `InMemoryAccumulator::frozen_subtree_roots`, `num_leaves`
Kind: D -/
structure InMemoryAccumulator where
  /-- `frozen_subtree_roots()`. -/
  frozenSubtreeRoots : List HashValue
  /-- `num_leaves()`. -/
  numLeaves : Nat
deriving DecidableEq, Repr

/-- The in-memory trees after the block, by the values `compute_result` reads.
Source: `executor_types::ExecutedTrees` (`state_id()`, `txn_accumulator()`)
Kind: D -/
structure ExecutedTrees where
  /-- `state_id()`. -/
  stateId : HashValue
  /-- `txn_accumulator()`. -/
  txnAccumulator : InMemoryAccumulator
deriving DecidableEq, Repr

/-- The epoch to change to, tracked by identity. Source: `diem_types::epoch_state::EpochState`.
Kind: D -/
abbrev EpochState := Nat

/-- What consensus receives for a block: the arguments of `StateComputeResult::new`, in order.
Source: `executor_types::StateComputeResult::new`, called at types.rs 203–213
Kind: D -/
structure StateComputeResult where
  /-- The root of the transaction accumulator after the block. -/
  rootHash : HashValue
  /-- Its frozen subtree roots. -/
  frozenSubtreeRoots : List HashValue
  /-- Its number of leaves. -/
  numLeaves : Nat
  /-- The parent's frozen subtree roots. -/
  parentFrozenSubtreeRoots : List HashValue
  /-- The parent's number of leaves. -/
  parentNumLeaves : Nat
  /-- The epoch the block changes to, if any. -/
  epochState : Option EpochState
  /-- One status per transaction. -/
  computeStatus : List TransactionStatus
  /-- The info hashes of the kept transactions. -/
  transactionInfoHashes : List HashValue
  /-- The new-epoch events of the kept transactions. -/
  reconfigEvents : List ContractEvent
deriving DecidableEq, Repr

/-- A block's execution output.
Source: `ProcessedVMOutput` (types.rs 120–132); `ProcessedVMOutput::new` (135–145)
Kind: D -/
structure ProcessedVMOutput where
  /-- `transaction_data()`. -/
  transactionData : List TransactionData
  /-- `executed_trees()`. -/
  executedTrees : ExecutedTrees
  /-- `epoch_state()`. -/
  epochState : Option EpochState
deriving DecidableEq, Repr

/-- The three vectors `compute_result`'s loop fills. Source: `compute_result` (178–180). Kind: D -/
structure ComputeAcc where
  /-- `compute_status`. -/
  computeStatus : List TransactionStatus
  /-- `transaction_info_hashes`. -/
  transactionInfoHashes : List HashValue
  /-- `reconfig_events`. -/
  reconfigEvents : List ContractEvent
deriving DecidableEq, Repr

namespace ProcessedVMOutput

/-- `accu_root()`. Source: types.rs 155–157. Kind: D -/
def accuRoot (out : ProcessedVMOutput) : HashValue := out.executedTrees.stateId

/-- One iteration of the loop over `transaction_data()`: push the status; for a kept transaction
push its info hash, which must be there, and extend by its new-epoch events.
Source: `compute_result` (182–193)
Kind: D -/
def computeStep (newEpochEventKey : EventKey) (acc : ComputeAcc) (txnData : TransactionData) :
    Except Fault ComputeAcc :=
  let computeStatus := acc.computeStatus ++ [txnData.status]
  if txnData.status.isKeep then
    match txnData.txnInfoHash with
    | some hash => .ok ⟨computeStatus, acc.transactionInfoHashes ++ [hash],
        acc.reconfigEvents ++ txnData.newEpochEvents newEpochEventKey⟩
    | none => .error (.expect "Txn to be kept.")
  else .ok { acc with computeStatus }

/-- `compute_result`: the loop, then `StateComputeResult::new` on what it gathered and on what the
output and the caller pass through; `newEpochEventKey` is `on_chain_config::new_epoch_event_key()`.
Source: `ProcessedVMOutput::compute_result` (171–214)
Kind: D -/
def computeResult (newEpochEventKey : EventKey) (out : ProcessedVMOutput)
    (parentFrozenSubtreeRoots : List HashValue) (parentNumLeaves : Nat) :
    Except Fault StateComputeResult := do
  let txnAccu := out.executedTrees.txnAccumulator
  let acc ← out.transactionData.foldlM (computeStep newEpochEventKey) ⟨[], [], []⟩
  pure ⟨out.accuRoot, txnAccu.frozenSubtreeRoots, txnAccu.numLeaves, parentFrozenSubtreeRoots,
    parentNumLeaves, out.epochState, acc.computeStatus, acc.transactionInfoHashes,
    acc.reconfigEvents⟩

/-! ## The loop -/

variable {k : EventKey}

/-- **The loop over transactions that all carry their hash when kept**: it appends every status,
and the hashes and new-epoch events of the kept transactions.
Source: `compute_result` (182–193)
Kind: L -/
theorem foldlM_computeStep_of_hashed (acc : ComputeAcc) {td : List TransactionData}
    (h : ∀ t ∈ td, t.status.isKeep → t.txnInfoHash.isSome) :
    td.foldlM (computeStep k) acc =
      .ok ⟨acc.computeStatus ++ td.map (·.status),
        acc.transactionInfoHashes ++ (td.filter (·.status.isKeep)).filterMap (·.txnInfoHash),
        acc.reconfigEvents ++ (td.filter (·.status.isKeep)).flatMap (·.newEpochEvents k)⟩ := by
  induction td generalizing acc with
  | nil => simp [pure, Except.pure]
  | cons t ts ih =>
    have hts := fun acc => ih acc fun t' ht' => h t' (List.mem_cons_of_mem _ ht')
    rw [List.foldlM_cons]
    cases hk : t.status.isKeep with
    | false => simp [computeStep, hk, bind, Except.bind, hts]
    | true =>
      obtain ⟨hash, hh⟩ := Option.isSome_iff_exists.mp (h t (List.mem_cons_self _ _) hk)
      simp [computeStep, hk, hh, bind, Except.bind, hts]

/-- **The loop over transactions of which one is kept without its hash** panics at the first such
transaction.
Source: `compute_result` (184)
Kind: L -/
theorem foldlM_computeStep_of_unhashed (acc : ComputeAcc) {td : List TransactionData}
    (h : ∃ t ∈ td, t.status.isKeep ∧ t.txnInfoHash = none) :
    td.foldlM (computeStep k) acc = .error (.expect "Txn to be kept.") := by
  induction td generalizing acc with
  | nil => simp at h
  | cons t ts ih =>
    rw [List.foldlM_cons]
    by_cases hmiss : t.status.isKeep ∧ t.txnInfoHash = none
    · simp [computeStep, hmiss.1, hmiss.2, bind, Except.bind]
    · obtain ⟨t', ht', hk⟩ := h
      have hts := fun acc =>
        ih acc ⟨t', (List.mem_cons.mp ht').resolve_left (by rintro rfl; exact hmiss hk), hk⟩
      cases hk' : t.status.isKeep with
      | false => simp [computeStep, hk', bind, Except.bind, hts]
      | true =>
        obtain ⟨hash, hh⟩ := Option.ne_none_iff_exists'.mp fun hn => hmiss ⟨hk', hn⟩
        simp [computeStep, hk', hh, bind, Except.bind, hts]

/-! ## What `compute_result` returns -/

/-- **`compute_result` computes the block's summary**: when every kept transaction carries its
info hash, the statuses of all transactions, then the hashes and the new-epoch events of the kept
ones in order, with the accumulator's values, the parent's and the epoch passed through; otherwise
the panic of `expect("Txn to be kept.")`.
Source: `ProcessedVMOutput::compute_result` (171–214)
Kind: P -/
theorem computeResult_eq (k : EventKey) (out : ProcessedVMOutput)
    (parentFrozenSubtreeRoots : List HashValue) (parentNumLeaves : Nat) :
    out.computeResult k parentFrozenSubtreeRoots parentNumLeaves =
      if ∀ t ∈ out.transactionData, t.status.isKeep → t.txnInfoHash.isSome then
        .ok ⟨out.accuRoot, out.executedTrees.txnAccumulator.frozenSubtreeRoots,
          out.executedTrees.txnAccumulator.numLeaves, parentFrozenSubtreeRoots, parentNumLeaves,
          out.epochState, out.transactionData.map (·.status),
          (out.transactionData.filter (·.status.isKeep)).filterMap (·.txnInfoHash),
          (out.transactionData.filter (·.status.isKeep)).flatMap (·.newEpochEvents k)⟩
      else .error (.expect "Txn to be kept.") := by
  split_ifs with h
  · simp [computeResult, foldlM_computeStep_of_hashed _ h, bind, Except.bind, pure, Except.pure]
  · push_neg at h
    obtain ⟨t, ht, hk, hn⟩ := h
    simp [computeResult, foldlM_computeStep_of_unhashed _ ⟨t, ht, hk, by simpa using hn⟩, bind,
      Except.bind]

/-- A kept transaction without its info hash stops the loop. -/
example : (⟨[⟨[], .keep 0, none⟩], ⟨0, ⟨[], 0⟩⟩, none⟩ : ProcessedVMOutput).computeResult 5 [] 0 =
    .error (.expect "Txn to be kept.") := by decide

/-- **On transactions that keep the documented contract, `compute_result` returns**: one status
per transaction, the info hashes in line with the kept transactions, and only new-epoch events of
kept transactions.
Source: `ProcessedVMOutput::compute_result` (171–214); `TransactionData::txn_info_hash` (53–54)
Kind: P -/
theorem computeResult_wellFormed (k : EventKey) (out : ProcessedVMOutput)
    (parentFrozenSubtreeRoots : List HashValue) (parentNumLeaves : Nat)
    (h : ∀ t ∈ out.transactionData, t.WellFormed) :
    ∃ r, out.computeResult k parentFrozenSubtreeRoots parentNumLeaves = .ok r ∧
      r.computeStatus = out.transactionData.map (·.status) ∧
      r.transactionInfoHashes.map some =
        (out.transactionData.filter (·.status.isKeep)).map (·.txnInfoHash) ∧
      ∀ ev ∈ r.reconfigEvents, ev.key = k ∧
        ∃ t ∈ out.transactionData, t.status.isKeep ∧ ev ∈ t.events := by
  have hh : ∀ t ∈ out.transactionData, t.status.isKeep → t.txnInfoHash.isSome :=
    fun t ht hk => (h t ht).trans hk
  refine ⟨_, by rw [computeResult, foldlM_computeStep_of_hashed _ hh]; rfl, by simp, ?_, ?_⟩
  · simp only [List.nil_append, List.map_filterMap_some_eq_filter_map_isSome]
    rw [List.filter_eq_self]
    simp only [List.mem_map, List.mem_filter]
    rintro _ ⟨t, ⟨ht, hk⟩, rfl⟩
    exact hh t ht hk
  · intro ev hev
    simp only [List.nil_append, List.mem_flatMap, List.mem_filter, TransactionData.newEpochEvents,
      beq_iff_eq] at hev
    obtain ⟨t, ⟨ht, hk⟩, hev, rfl⟩ := hev
    exact ⟨rfl, t, ht, hk, hev⟩

/-- A block of a kept transaction that emitted a new-epoch event (key `5`) and another event, then
a discarded transaction. Source: none: a concrete input. Kind: D -/
def keptThenDiscarded : ProcessedVMOutput :=
  ⟨[⟨[⟨5, 0⟩, ⟨3, 1⟩], .keep 0, some 42⟩, ⟨[⟨5, 2⟩], .discard 7, none⟩], ⟨100, ⟨[1], 2⟩⟩, none⟩

/-- The block of a kept and a discarded transaction is well formed, and its summary is computed.
Source: none: witness
Kind: L -/
theorem computeResult_wellFormed_keptThenDiscarded :
    (∀ t ∈ keptThenDiscarded.transactionData, t.WellFormed) ∧
    ∃ r, keptThenDiscarded.computeResult 5 [] 0 = .ok r ∧
      r.computeStatus = keptThenDiscarded.transactionData.map (·.status) ∧
      r.transactionInfoHashes.map some =
        (keptThenDiscarded.transactionData.filter (·.status.isKeep)).map (·.txnInfoHash) ∧
      ∀ ev ∈ r.reconfigEvents, ev.key = 5 ∧
        ∃ t ∈ keptThenDiscarded.transactionData, t.status.isKeep ∧ ev ∈ t.events :=
  ⟨by decide, computeResult_wellFormed 5 keptThenDiscarded [] 0 (by decide)⟩

end ProcessedVMOutput

end BufferManager
