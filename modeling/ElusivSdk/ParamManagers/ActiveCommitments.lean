import ElusivSdk.ParamManagers.StartIndices

/-!
# The commitments that a wallet can spend

What the commitment manager returns on a chain whose transactions tell their commitments.

* `History.activeTxs` — what `getActiveTxs` returns on every coherent manager.
* `commitmentOf`, `Tells` — the commitment of a transaction, and that the transaction tells its hash.
* **`getActiveCommitments_spec`** — the commitments of the active transactions, or an error.
* **`getMostRecentNonce_spec`** — the newest nonce in use, or an error.
-/

namespace ElusivSdk

open Descending Program

/-- What `getActiveTxs` returns on every coherent manager. -/
def History.activeTxs (h : History) (tokenType : TokenType) : List ElusivTransaction :=
  selectActiveTxs (h.fetchTxs SEND_ARITY (some tokenType) none)

/-- The active transactions of a token are transactions of the token. -/
lemma History.Gapless.mem_activeTxs {h : History} (hg : h.Gapless) (hlen : h.length ≤ MAX_UINT32)
    {tokenType : TokenType} {tx : ElusivTransaction} (htx : tx ∈ h.activeTxs tokenType) :
    tx ∈ h.txsAt tx.nonce ∧ tx.tokenType = tokenType := by
  rw [activeTxs, hg.fetchTxs_eq hlen] at htx
  have hbelow := (takeGroups_sublist _ _ _).subset (selectActiveTxs_subset _ htx)
  have hmem := ((h.graded_tokenBucket (some tokenType)).mem_between.mp hbelow).2.2
  obtain ⟨hbucket, htoken⟩ := List.mem_filter.mp hmem
  exact ⟨h.bucket_subset _ hbucket, by simpa [ElusivTransaction.hasToken] using htoken⟩

/-- One batch of one transaction holds a transaction of the newest nonce, when there is one. -/
lemma History.Gapless.head?_read_one {h : History} (hg : h.Gapless) :
    (h.length = 0 ∧ (h.read 1 none).head? = none) ∨
      ∃ tx, (h.read 1 none).head? = some tx ∧ tx.nonce + 1 = h.length ∧ tx ∈ h.txsAt tx.nonce := by
  have htop : h.top none = h.length := Nat.min_self h.length
  rw [hg.read_eq, htop, head?_takeGroups Nat.one_pos]
  cases hlen : h.length with
  | zero => exact Or.inl ⟨rfl, rfl⟩
  | succ n =>
      right
      have hne : (h.bucket n).reverse ≠ [] := by
        rw [Ne, List.reverse_eq_nil_iff]
        exact hg.bucket_ne_nil (by omega)
      rw [below, between_succ (Nat.zero_le n), List.head?_append_of_ne_nil _ hne]
      obtain ⟨tx, htx⟩ := List.exists_mem_of_ne_nil _ hne
      rcases hhead : (h.bucket n).reverse.head? with _ | tx'
      · rw [List.head?_eq_none_iff.mp hhead] at htx
        exact absurd htx List.not_mem_nil
      · have hmem := List.mem_reverse.mp (List.mem_of_head? hhead)
        have hnonce := h.graded_bucket n tx' hmem
        refine ⟨tx', rfl, by rw [hnonce], ?_⟩
        rw [hnonce]
        exact h.bucket_subset n hmem

namespace CommitmentScheme

variable (scheme : CommitmentScheme)

/-- The commitment of a transaction: that of a send from its metadata, that of a topup from its fields. -/
def commitmentOf (tx : ElusivTransaction) : IncompleteCommitment :=
  match tx.metadata with
  | some metadata => scheme.commFromMetadata metadata
  | none => scheme.buildCommitmentForPartialStore tx

/-- A transaction tells the hash of its commitment, and a send has its metadata. -/
structure Tells (tx : ElusivTransaction) : Prop where
  metadata : tx.txType = .SEND → tx.metadata.isSome = true
  hash_eq : scheme.getCommitmentHash (scheme.commitmentOf tx) = tx.commitmentHash

variable {scheme} {tx : ElusivTransaction} {txs : List ElusivTransaction}
  {getTxsFromNonces : List (ℕ × Bool) → Except Failure (List ElusivTransaction)} {fuel : ℕ}

/-- A topup has no metadata. -/
lemma commitmentOf_topup (htype : tx.txType = .TOPUP) :
    scheme.commitmentOf tx = scheme.buildCommitmentForPartialStore tx := by
  rw [commitmentOf]
  split
  · rename_i metadata hmetadata
    rw [txType_of_metadata hmetadata] at htype
    nomatch htype
  · rfl

/-- The metadata is enough for a send. -/
lemma Tells.exec_getCommitmentForPartialSend (h : scheme.Tells tx) (htype : tx.txType = .SEND)
    (m : TxManager) : exec (scheme.getCommitmentForPartialSend getTxsFromNonces fuel tx) m
      = (.ok (scheme.commitmentOf tx), m) := by
  obtain ⟨metadata, hmetadata⟩ := Option.isSome_iff_exists.mp (h.metadata htype)
  have hhash := h.hash_eq
  rw [commitmentOf, hmetadata] at hhash
  rw [getCommitmentForPartialSend, commitmentOf, hmetadata]
  show exec (if scheme.getCommitmentHash (scheme.commFromMetadata metadata) = tx.commitmentHash
    then pure (scheme.commFromMetadata metadata) else _) m = _
  rw [if_pos hhash]
  rfl

lemma Tells.exec_isTransactionConfirmed (h : scheme.Tells tx) (m : TxManager) :
    exec (scheme.isTransactionConfirmed getTxsFromNonces fuel tx) m
      = (.ok (scheme.hasCommitment tx.commitmentHash tx.merkleStartIndex), m) := by
  have hcomm : exec (scheme.getCommitmentForTransaction getTxsFromNonces fuel tx) m
      = (.ok (scheme.commitmentOf tx), m) := by
    rw [getCommitmentForTransaction]
    cases htype : tx.txType with
    | TOPUP =>
        rw [commitmentOf_topup htype]
        rfl
    | SEND => exact h.exec_getCommitmentForPartialSend htype m
  rw [isTransactionConfirmed, exec_bind, hcomm, ← h.hash_eq]
  rfl

/-- Commitments with distinct hashes are a set. -/
lemma commitmentSet_commitmentOf (htells : ∀ tx ∈ txs, scheme.Tells tx)
    (hnodup : (txs.map ElusivTransaction.commitmentHash).Nodup) :
    scheme.commitmentSet ((sendsLast txs).map scheme.commitmentOf)
      = (sendsLast txs).map scheme.commitmentOf := by
  refine foldl_addToSet_of_nodup [] ?_
  have hhashes : ((sendsLast txs).map scheme.commitmentOf).map scheme.getCommitmentHash
      = (sendsLast txs).map ElusivTransaction.commitmentHash := by
    rw [List.map_map]
    exact List.map_congr_left fun tx htx => (htells tx ((sendsLast_perm txs).subset htx)).hash_eq
  rw [List.nil_append, hhashes]
  exact ((sendsLast_perm txs).map _).nodup_iff.mpr hnodup

/-- **The commitments of transactions that tell them**, the sends last. -/
lemma exec_getIncompleteCommitmentsForTxs (htells : ∀ tx ∈ txs, scheme.Tells tx)
    (hnodup : (txs.map ElusivTransaction.commitmentHash).Nodup) (m : TxManager) :
    exec (scheme.getIncompleteCommitmentsForTxs getTxsFromNonces fuel txs) m
      = (.ok ((sendsLast txs).map scheme.commitmentOf, txs.map ElusivTransaction.merkleStartIndex),
        m) := by
  have hsends : ∀ {sends : List ElusivTransaction},
      (∀ tx ∈ sends, scheme.Tells tx ∧ tx.txType = .SEND) →
      exec (sends.mapM (scheme.getCommitmentForPartialSend getTxsFromNonces fuel)) m
        = (.ok (sends.map scheme.commitmentOf), m) := by
    intro sends
    induction sends with
    | nil => exact fun _ => rfl
    | cons tx sends ih =>
        intro hall
        rw [List.forall_mem_cons] at hall
        rw [List.mapM_cons, exec_bind, hall.1.1.exec_getCommitmentForPartialSend hall.1.2]
        show exec (sends.mapM _ >>= _) m = _
        rw [exec_bind, ih hall.2]
        rfl
  have htopups : (txs.filter fun tx => tx.txType == .TOPUP).map scheme.buildCommitmentForPartialStore
      = (txs.filter fun tx => tx.txType == .TOPUP).map scheme.commitmentOf := by
    refine List.map_congr_left fun tx htx => ?_
    rw [commitmentOf_topup (eq_of_beq (List.mem_filter.mp htx).2)]
  rw [getIncompleteCommitmentsForTxs, exec_bind, hsends fun tx htx => ?_]
  · show exec (pure (scheme.commitmentSet (_ ++ _), _)) m = _
    rw [htopups, ← List.map_append, ← sendsLast, commitmentSet_commitmentOf htells hnodup]
    rfl
  · have hmem := List.mem_filter.mp htx
    exact ⟨htells tx hmem.1, eq_of_beq hmem.2⟩

section Specs

variable {h : History} {m₀ : TxManager} (hc : Coherent h m₀) (hg : h.Gapless)
  (hfuel : h.length + DEFAULT_FETCH_BATCH_SIZE + 3 ≤ fuel)
include hc hg hfuel

/-- **`getActiveCommitments` returns the commitments of the active transactions**, or it throws. -/
theorem getActiveCommitments_spec {tokenType : TokenType}
    (htells : ∀ tx ∈ h.activeTxs tokenType, scheme.Tells tx)
    (hnodup : ((h.activeTxs tokenType).map ElusivTransaction.commitmentHash).Nodup) :
    Triple (fun m => m = m₀) (scheme.getActiveCommitments h.fetcher fuel tokenType none)
      (fun comms m => comms = (sendsLast (h.activeTxs tokenType)).map scheme.commitmentOf ∧
        Coherent h m) (fun _ m => Coherent h m) := by
  have hactive : Total (fun m => m = m₀) (getActiveTxs h.fetcher fuel tokenType none) fun txs m =>
      txs = h.activeTxs tokenType ∧ Coherent h m :=
    (getActiveTxs_spec hc (hg.gapsBelow (by decide)) hfuel tokenType none).mono (fun _ hm => hm)
      (fun _ _ hm => ⟨hm.1, FetchedAndAllMarked.coherent hm.2⟩) fun _ _ hm => hm
  refine Triple.bind (hactive.mono (fun _ hm => hm) (fun _ _ hm => hm) fun _ _ hm => hm.elim)
    fun txs => Triple.of_forall ?_
  rintro m ⟨rfl, hm⟩
  cases htxs : h.activeTxs tokenType with
  | nil => exact Triple.ret fun s hs => ⟨rfl, hs ▸ hm⟩
  | cons newest rest =>
      rw [htxs] at htells hnodup
      refine Triple.bind (Triple.of_exec (Q := fun _ m => Coherent h m)
        (htells newest List.mem_cons_self).exec_isTransactionConfirmed fun s hs => hs ▸ hm)
        fun confirmed => ?_
      cases confirmed with
      | false => exact Triple.raise fun s hs => hs
      | true =>
          refine Triple.bind (Triple.of_exec (exec_getIncompleteCommitmentsForTxs htells hnodup)
            (Q := fun comms m => comms.1 = (sendsLast (newest :: rest)).map scheme.commitmentOf ∧
              Coherent h m) fun s hs => ⟨rfl, hs⟩) fun comms => ?_
          refine Triple.lift_any ?_ fun e s _ hs => hs.2
          rintro res s hres ⟨hcomms, hs⟩
          refine ⟨?_, hs⟩
          rw [activateCommitments] at hres
          split_ifs at hres
          rw [← Except.ok.inj hres, hcomms, commitmentSet_commitmentOf htells hnodup]

/-- **`getMostRecentNonce` returns the newest nonce in use**, or it throws. -/
theorem getMostRecentNonce_spec (htells : ∀ n, ∀ tx ∈ h.txsAt n, scheme.Tells tx) :
    Triple (fun m => m = m₀) (scheme.getMostRecentNonce h.fetcher fuel)
      (fun nonce m => nonce = (h.length : ℤ) - 1 ∧ Coherent h m) (fun _ m => Coherent h m) := by
  have hrecent : Total (fun m => m = m₀) (getMostRecentTx h.fetcher fuel) fun tx m =>
      tx = (h.read 1 none).head? ∧ Coherent h m :=
    (getMostRecentTx_spec hc (hg.gapsBelow (by decide)) hfuel).mono (fun _ hm => hm)
      (fun _ _ hm => ⟨hm.1, hm.2.coherent⟩) fun _ _ hm => hm
  refine Triple.bind (hrecent.mono (fun _ hm => hm) (fun _ _ hm => hm) fun _ _ hm => hm.elim)
    fun mostRecentTx => Triple.of_forall ?_
  rintro m ⟨rfl, hm⟩
  rcases hg.head?_read_one with ⟨hlen, hnone⟩ | ⟨tx, hsome, hnonce, hmem⟩
  · rw [hnone]
    refine Triple.ret fun s hs => ⟨?_, hs ▸ hm⟩
    rw [hlen]
    rfl
  · rw [hsome]
    refine Triple.bind (Triple.of_exec (Q := fun _ m => Coherent h m)
      (htells _ tx hmem).exec_isTransactionConfirmed fun s hs => hs ▸ hm) fun confirmed => ?_
    cases confirmed with
    | false => exact Triple.raise fun s hs => hs
    | true =>
        refine Triple.ret fun s hs => ⟨?_, hs⟩
        omega

end Specs

end CommitmentScheme

end ElusivSdk
