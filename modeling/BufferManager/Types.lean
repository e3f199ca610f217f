import Mathlib.Data.List.Nodup

/-!
# The collaborators' types, as the buffer manager sees them

`buffer_manager.rs` imports its data from crates that are not part of this slice
(`consensus_types`, `diem_types`, the execution, signing and persisting phases). Only the fields
the manager reads are kept, and each is modelled by the value the manager compares or forwards:

* hashes, authors, signatures and commit callbacks are natural numbers (`HashValue`, `Author`,
  `Signature`, `Callback`). A callback is a boxed closure in the source; the manager only moves it
  into a `PersistingRequest`, so its identity is all that matters;
* `ExecutedBlock` keeps its id and its executed state id, from which `block_info()` is built;
  `LedgerInfo` pairs a `BlockInfo` with the consensus data hash (§ Glossary, "Commit ledger-info");
* `ValidatorVerifier` is the read-only verifier of spec §4.4, a parameter of every result;
* `Fault` is how a handler stops instead of returning: one constructor per panic macro the
  source uses, and `diverge` for a loop that re-enters itself with nothing changed.
-/

namespace BufferManager

/-! ## Identifiers -/

/-- A block id or digest. Source: `diem_crypto::HashValue`. Kind: D -/
abbrev HashValue := Nat

/-- A validator. Source: `consensus_types::common::Author`. Kind: D -/
abbrev Author := Nat

/-- A single validator's signature. Source: `Ed25519Signature`. Kind: D -/
abbrev Signature := Nat

/-- A commit callback, tracked by identity. Source: `StateComputerCommitCallBackType`. Kind: D -/
abbrev Callback := Nat

/-! ## Blocks and ledger infos -/

/-- The summary of an executed block that a commit vote signs.
Source: `diem_types::block_info::BlockInfo` (spec § Glossary)
Kind: D -/
structure BlockInfo where
  /-- The block's id. -/
  id : HashValue
  /-- The state root the execution produced. -/
  executedStateId : HashValue
deriving DecidableEq, Repr

/-- A block with its execution result.
Source: `consensus_types::executed_block::ExecutedBlock`
Kind: D -/
structure ExecutedBlock where
  /-- `id()`. -/
  id : HashValue
  /-- The root of the state the block was executed to. -/
  executedStateId : HashValue
deriving DecidableEq, Repr

/-- `block_info()`: the block's id with its executed state.
Source: `ExecutedBlock::block_info`
Kind: D -/
def ExecutedBlock.blockInfo (b : ExecutedBlock) : BlockInfo := ⟨b.id, b.executedStateId⟩

/-- A ledger info: the block it commits and the consensus data hash.
Source: `diem_types::ledger_info::LedgerInfo`; `LedgerInfo::new(block_info, consensus_data_hash)`
Kind: D -/
structure LedgerInfo where
  /-- `commit_info()`. -/
  commitInfo : BlockInfo
  /-- `consensus_data_hash()`. -/
  consensusDataHash : HashValue
deriving DecidableEq, Repr

/-- A ledger info with the signatures collected on it, keyed by author.
Source: `diem_types::ledger_info::LedgerInfoWithSignatures`
Kind: D -/
structure LedgerInfoWithSignatures where
  /-- `ledger_info()`. -/
  ledgerInfo : LedgerInfo
  /-- The signatures, one per author. -/
  signatures : List (Author × Signature)
deriving DecidableEq, Repr

/-- `commit_info()` of a signed ledger info. Source: `LedgerInfoWithSignatures::commit_info`. Kind: D -/
def LedgerInfoWithSignatures.commitInfo (li : LedgerInfoWithSignatures) : BlockInfo :=
  li.ledgerInfo.commitInfo

/-- A validator's vote on a commit ledger info.
Source: `consensus_types::experimental::commit_vote::CommitVote`
Kind: D -/
structure CommitVote where
  /-- `author()`. -/
  author : Author
  /-- The commit ledger info voted on. -/
  ledgerInfo : LedgerInfo
  /-- `signature()`. -/
  signature : Signature
deriving DecidableEq, Repr

/-- `commit_info()` of a vote. Source: `CommitVote::commit_info`. Kind: D -/
def CommitVote.commitInfo (v : CommitVote) : BlockInfo := v.ledgerInfo.commitInfo

/-- The validator verifier of spec §4.4: read-only, given, and quantified over in every result.
Source: `diem_types::validator_verifier::ValidatorVerifier`; spec §4.4
Kind: D -/
structure ValidatorVerifier where
  /-- `verify(author, digest, sig)`: single-signature verification. -/
  verify : Author → LedgerInfo → Signature → Bool
  /-- `check_voting_power(authors)`: does this set of authors reach the quorum? -/
  checkVotingPower : List Author → Bool
  /-- Verification of an externally obtained quorum ledger info (the sync path, spec §4.1). -/
  verifySignatures : LedgerInfoWithSignatures → Bool

/-! ## Faults -/

/-- Why a handler stopped without returning. Each constructor is one panicking construct of the
source; `diverge` is a loop whose `continue` re-enters it with an unchanged state.
Source: `Option::unwrap`, `assert!`, `unreachable!`, `Result::expect` in `buffer_manager.rs`
Kind: D -/
inductive Fault
  /-- `Option::unwrap()` on `None`, also an empty list slot read through a cursor. -/
  | unwrapNone
  /-- `assert!(cond)` failed. -/
  | assertion (cond : String)
  /-- `unreachable!(msg)` was reached; the bare macro has the empty message. -/
  | unreachable (msg : String)
  /-- `Result::expect(msg)` on an `Err`, or `Option::expect(msg)` on `None`. -/
  | expect (msg : String)
  /-- The loop never exits. -/
  | diverge
deriving DecidableEq, Repr

/-- Equality of fallible results is decidable, so that concrete runs can be evaluated.
Source: none: infrastructure
Kind: D -/
instance exceptDecidableEq {ε α : Type} [DecidableEq ε] [DecidableEq α] :
    DecidableEq (Except ε α)
  | .ok a, .ok b => decidable_of_iff (a = b) (by simp)
  | .error a, .error b => decidable_of_iff (a = b) (by simp)
  | .ok _, .error _ => isFalse (by simp)
  | .error _, .ok _ => isFalse (by simp)

/-! ## Computing in `Except` -/

/-- Source: none: infrastructure. Kind: L -/
@[simp] theorem except_pure_eq_ok {ε α : Type} (a : α) : (pure a : Except ε α) = .ok a := rfl

/-- Source: none: infrastructure. Kind: L -/
@[simp] theorem except_throw_eq_error {ε α : Type} (e : ε) : (throw e : Except ε α) = .error e := rfl

/-- Source: none: infrastructure. Kind: L -/
@[simp] theorem except_ok_bind {ε α β : Type} (a : α) (f : α → Except ε β) :
    (Except.ok a >>= f) = f a := rfl

/-- Source: none: infrastructure. Kind: L -/
@[simp] theorem except_error_bind {ε α β : Type} (e : ε) (f : α → Except ε β) :
    (Except.error e >>= f) = .error e := rfl

/-- A bind that returns ran both of its computations. Source: none: infrastructure. Kind: L -/
theorem except_bind_eq_ok {ε α β : Type} {x : Except ε α} {f : α → Except ε β} {b : β}
    (h : x >>= f = .ok b) : ∃ a, x = .ok a ∧ f a = .ok b := by
  cases x with
  | error e => cases h
  | ok a => exact ⟨a, rfl, h⟩

end BufferManager
