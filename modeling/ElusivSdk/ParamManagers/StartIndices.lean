import ElusivSdk.ParamManagers.CommitmentManager

/-!
# Commitments and their start indices

`getIncompleteCommitmentsForTxs` returns the commitments of the active transactions and, in a list of
its own, their start indices.  The topups enter the set of commitments at once and the sends after all
waiting; the start indices are in the order of the transactions.

* `Correspond` — each start index is that of the transaction whose commitment is at its place.
* `correspond_iff` — on any list: no commitment occurs twice, and moving the sends to the end leaves the
  list of start indices as it is.
* **`getIncompleteCommitmentsForTxs_iff`** — on what `getActiveTxs` returns: no commitment occurs twice,
  and every topup behind the send has its start index.
* **`getIncompleteCommitmentsForTxs_swapped`** — a send with another topup on its nonce.
-/

namespace ElusivSdk

open Program

/-! ## Commitments against start indices -/

/-- The topups, then the sends: the order in which the set is built. -/
def sendsLast (txs : List ElusivTransaction) : List ElusivTransaction :=
  (txs.filter fun tx => tx.txType == .TOPUP) ++ txs.filter fun tx => tx.txType == .SEND

lemma sendsLast_perm (txs : List ElusivTransaction) : (sendsLast txs).Perm txs := by
  have hnot : (txs.filter fun tx => tx.txType == .SEND)
      = txs.filter fun tx => !(tx.txType == .TOPUP) := by
    refine List.filter_congr fun tx _ => ?_
    cases tx.txType <;> rfl
  rw [sendsLast, hnot]
  exact List.filter_append_perm _ txs

namespace CommitmentScheme

variable (scheme : CommitmentScheme)

/-- The hash of a transaction's commitment: a send tells it, that of a topup is computed. -/
def hashOf (tx : ElusivTransaction) : Bytes :=
  match tx.txType with
  | .TOPUP => scheme.getCommitmentHash (scheme.buildCommitmentForPartialStore tx)
  | .SEND => tx.commitmentHash

/-- **Each start index is that of the transaction whose commitment is at its place.** -/
def Correspond (txs : List ElusivTransaction) (comms : List IncompleteCommitment)
    (startIndices : List ℕ) : Prop :=
  List.Forall₂ (fun comm start => ∃ tx ∈ txs, scheme.getCommitmentHash comm = scheme.hashOf tx ∧
    start = tx.merkleStartIndex) comms startIndices

instance (txs : List ElusivTransaction) (comms : List IncompleteCommitment) (startIndices : List ℕ) :
    Decidable (scheme.Correspond txs comms startIndices) :=
  inferInstanceAs (Decidable (List.Forall₂ _ _ _))

variable {scheme} {getTxsFromNonces : List (ℕ × Bool) → Except Failure (List ElusivTransaction)}
  {fuel : ℕ}

/-- A send's commitment has the hash that the send tells. -/
lemma hash_of_getCommitmentForPartialSend {tx : ElusivTransaction} {comm : IncompleteCommitment}
    {m m' : TxManager}
    (h : exec (scheme.getCommitmentForPartialSend getTxsFromNonces fuel tx) m = (.ok comm, m')) :
    scheme.getCommitmentHash comm = tx.commitmentHash := by
  have hslow : exec (scheme.getCommitmentForPartialSendSlow getTxsFromNonces fuel tx) m
      = (.ok comm, m') → scheme.getCommitmentHash comm = tx.commitmentHash := by
    intro hrun
    obtain ⟨balance, m₁, -, hrun⟩ := exec_bind_eq_ok.mp hrun
    dsimp only at hrun
    split_ifs at hrun with heq
    · rw [exec_pure] at hrun
      obtain rfl := Except.ok.inj (Prod.mk.inj hrun).1
      exact heq
    · nomatch congrArg Prod.fst hrun
  rw [getCommitmentForPartialSend] at h
  split at h
  · dsimp only at h
    split_ifs at h with heq
    · rw [exec_pure] at h
      obtain rfl := Except.ok.inj (Prod.mk.inj h).1
      exact heq
    · exact hslow h
  · exact hslow h

lemma map_hash_of_mapM {sends : List ElusivTransaction} {comms : List IncompleteCommitment}
    {m m' : TxManager} (hsends : ∀ tx ∈ sends, tx.txType = .SEND)
    (h : exec (sends.mapM (scheme.getCommitmentForPartialSend getTxsFromNonces fuel)) m
      = (.ok comms, m')) :
    comms.map scheme.getCommitmentHash = sends.map scheme.hashOf := by
  have hall := forall₂_of_exec_mapM h
  clear h
  induction hall with
  | nil => rfl
  | cons hrun _ ih =>
      obtain ⟨s₁, s₂, hrun⟩ := hrun
      rw [List.map_cons, List.map_cons, ih fun tx htx => hsends tx (List.mem_cons_of_mem _ htx),
        hash_of_getCommitmentForPartialSend hrun, hashOf, hsends _ List.mem_cons_self]

/-- What `getIncompleteCommitmentsForTxs` returns: the set of the commitments, sends last. -/
lemma getIncompleteCommitmentsForTxs_eq_ok {txs : List ElusivTransaction}
    {comms : List IncompleteCommitment} {startIndices : List ℕ} {m m' : TxManager}
    (h : exec (scheme.getIncompleteCommitmentsForTxs getTxsFromNonces fuel txs) m
      = (.ok (comms, startIndices), m')) :
    startIndices = txs.map ElusivTransaction.merkleStartIndex ∧
      ∃ items, comms = scheme.commitmentSet items ∧
        items.map scheme.getCommitmentHash = (sendsLast txs).map scheme.hashOf := by
  obtain ⟨sends, m₁, hsends, h⟩ := exec_bind_eq_ok.mp h
  rw [exec_pure] at h
  obtain ⟨rfl, rfl⟩ := Prod.mk.inj (Except.ok.inj (Prod.mk.inj h).1)
  refine ⟨rfl, _, rfl, ?_⟩
  rw [sendsLast, List.map_append, List.map_append, List.map_map]
  congr 1
  · refine List.map_congr_left fun tx htx => ?_
    have htype : tx.txType = .TOPUP := eq_of_beq (List.mem_filter.mp htx).2
    rw [hashOf, htype]
    rfl
  · exact map_hash_of_mapM (fun tx htx => eq_of_beq (List.mem_filter.mp htx).2) hsends

/-- Commitments in the order of some of the transactions fit the start indices in this order only. -/
lemma forall₂_start_iff {txs : List ElusivTransaction} (hnodup : (txs.map scheme.hashOf).Nodup) :
    ∀ {order : List ElusivTransaction} {items : List IncompleteCommitment} {startIndices : List ℕ},
      items.map scheme.getCommitmentHash = order.map scheme.hashOf → order ⊆ txs →
      (scheme.Correspond txs items startIndices ↔
        order.map ElusivTransaction.merkleStartIndex = startIndices)
  | [], items, startIndices, hitems, _ => by
      rw [List.map_nil, List.map_eq_nil_iff] at hitems
      rw [hitems, Correspond, List.forall₂_nil_left_iff, List.map_nil, eq_comm]
  | tx :: order, [], startIndices, hitems, _ => by simp at hitems
  | tx :: order, item :: items, startIndices, hitems, hsub => by
      rw [List.map_cons, List.map_cons, List.cons.injEq] at hitems
      have htx : tx ∈ txs := hsub List.mem_cons_self
      have ih : ∀ startIndices, scheme.Correspond txs items startIndices ↔
          order.map ElusivTransaction.merkleStartIndex = startIndices := fun _ =>
        forall₂_start_iff hnodup hitems.2 fun x hx => hsub (List.mem_cons_of_mem tx hx)
      rw [Correspond, List.forall₂_cons_left_iff, List.map_cons]
      constructor
      · rintro ⟨start, rest, ⟨tx', htx', hhash, rfl⟩, hrest, rfl⟩
        have heq : tx = tx' := List.inj_on_of_nodup_map hnodup htx htx' (hitems.1.symm.trans hhash)
        rw [heq, (ih rest).mp hrest]
      · rintro rfl
        exact ⟨_, _, ⟨tx, htx, hitems.1, rfl⟩, (ih _).mpr rfl, rfl⟩

/-- On any list of transactions: commitments and start indices correspond exactly when no commitment
occurs twice and the start indices do not change when the sends are moved to the end. -/
lemma correspond_iff {txs : List ElusivTransaction} {items : List IncompleteCommitment}
    (hitems : items.map scheme.getCommitmentHash = (sendsLast txs).map scheme.hashOf) :
    scheme.Correspond txs (scheme.commitmentSet items) (txs.map ElusivTransaction.merkleStartIndex) ↔
      (txs.map scheme.hashOf).Nodup ∧ (sendsLast txs).map ElusivTransaction.merkleStartIndex
        = txs.map ElusivTransaction.merkleStartIndex := by
  have hperm := sendsLast_perm txs
  have hnodup_iff : (items.map scheme.getCommitmentHash).Nodup ↔ (txs.map scheme.hashOf).Nodup := by
    rw [hitems]
    exact (hperm.map scheme.hashOf).nodup_iff
  have hset : (items.map scheme.getCommitmentHash).Nodup → scheme.commitmentSet items = items :=
    fun hnodup => foldl_addToSet_of_nodup [] hnodup
  constructor
  · intro h
    have hnodup : (items.map scheme.getCommitmentHash).Nodup := by
      refine (nodup_of_length_foldl_addToSet [] List.nodup_nil).2 ?_
      have hlen : items.length = txs.length := by
        rw [← List.length_map scheme.getCommitmentHash, hitems, List.length_map, hperm.length_eq]
      have hlength := h.length_eq
      rw [List.length_map, ← hlen] at hlength
      rw [List.length_nil, Nat.zero_add]
      exact hlength
    rw [hset hnodup] at h
    exact ⟨hnodup_iff.mp hnodup, (forall₂_start_iff (hnodup_iff.mp hnodup) hitems hperm.subset).mp h⟩
  · rintro ⟨hnodup, hstarts⟩
    rw [hset (hnodup_iff.mpr hnodup)]
    exact (forall₂_start_iff hnodup hitems hperm.subset).mpr hstarts

end CommitmentScheme

/-! ## The lists that `getActiveTxs` returns -/

/-- Topups, then possibly a send, and topups behind it. -/
def ActiveShape (txs : List ElusivTransaction) : Prop :=
  ∃ topups rest, txs = topups ++ rest ∧ (∀ tx ∈ topups, tx.txType = .TOPUP) ∧
    (rest = [] ∨ ∃ send behind, rest = send :: behind ∧ send.txType = .SEND ∧
      ∀ tx ∈ behind, tx.txType = .TOPUP)

lemma activeShape_activeTxsFrom {txs : List ElusivTransaction} :
    ∀ {rest seen : List ElusivTransaction}, txs = seen ++ rest →
      (∀ tx ∈ seen, tx.txType = .TOPUP) → ActiveShape (activeTxsFrom txs seen rest)
  | [], seen, heq, hseen => by
      rw [activeTxsFrom]
      exact ⟨seen, [], heq, hseen, Or.inl rfl⟩
  | curr :: rest, seen, heq, hseen => by
      rw [activeTxsFrom]
      cases htype : curr.txType with
      | TOPUP =>
          refine activeShape_activeTxsFrom (by rw [heq, List.append_assoc]; rfl) fun tx htx => ?_
          rcases List.mem_append.mp htx with htx | htx
          · exact hseen tx htx
          · rw [List.mem_singleton.mp htx, htype]
      | SEND =>
          refine ⟨seen, curr :: sameNonceTopupsNotIncluded txs (seen ++ [curr]) curr, ?_, hseen,
            Or.inr ⟨curr, _, rfl, htype, fun tx htx => ?_⟩⟩
          · show (seen ++ [curr]) ++ _ = _
            rw [List.append_assoc]
            rfl
          · rw [sameNonceTopupsNotIncluded, List.mem_filter] at htx
            simp only [Bool.and_eq_true, beq_iff_eq] at htx
            exact htx.2.1.1

/-- What a call of `getActiveTxs` returns has this shape, on any manager and any chain. -/
lemma activeShape_of_getActiveTxs
    {getTxsFromNonces : List (ℕ × Bool) → Except Failure (List ElusivTransaction)} {fuel : ℕ}
    {tokenType : TokenType} {beforeSend : Option ElusivTransaction} {txs : List ElusivTransaction}
    {m m' : TxManager}
    (h : exec (getActiveTxs getTxsFromNonces fuel tokenType beforeSend) m = (.ok txs, m')) :
    ActiveShape txs := by
  obtain ⟨fetched, m₁, -, h⟩ := exec_bind_eq_ok.mp h
  cases fetched with
  | nil =>
      obtain rfl := Except.ok.inj (Prod.mk.inj h).1
      exact ⟨[], [], rfl, fun tx htx => absurd htx List.not_mem_nil, Or.inl rfl⟩
  | cons newest rest =>
      obtain ⟨-, m₂, -, h⟩ := exec_bind_eq_ok.mp h
      rw [exec_pure] at h
      obtain rfl := Except.ok.inj (Prod.mk.inj h).1
      exact activeShape_activeTxsFrom rfl fun tx htx => absurd htx List.not_mem_nil

/-- The transactions behind the first send. -/
def behindSend (txs : List ElusivTransaction) : List ElusivTransaction :=
  (txs.dropWhile fun tx => tx.txType == .TOPUP).tail

/-- **Every topup behind the send has the start index of the send.** -/
def StartsAgree (txs : List ElusivTransaction) : Prop :=
  ∀ tx ∈ behindSend txs, ∀ send ∈ txs, send.txType = .SEND →
    tx.merkleStartIndex = send.merkleStartIndex

instance (txs : List ElusivTransaction) : Decidable (StartsAgree txs) :=
  inferInstanceAs (Decidable (∀ tx ∈ _, ∀ send ∈ _, _ → _))

private lemma append_singleton_eq_cons_iff {α : Type*} {x : α} :
    ∀ {l : List α}, l ++ [x] = x :: l ↔ ∀ y ∈ l, y = x
  | [] => by simp
  | y :: ys => by
      rw [List.cons_append, List.cons.injEq, List.forall_mem_cons]
      refine and_congr_right ?_
      rintro rfl
      exact append_singleton_eq_cons_iff

private lemma filter_of_forall_txType {txs : List ElusivTransaction} {txType : TxTypes}
    (h : ∀ tx ∈ txs, tx.txType = txType) (t : TxTypes) :
    (txs.filter fun tx => tx.txType == t) = if txType = t then txs else [] := by
  split_ifs with ht
  · refine List.filter_eq_self.mpr fun tx htx => ?_
    rw [h tx htx, ht]
    exact beq_self_eq_true t
  · refine List.filter_eq_nil_iff.mpr fun tx htx => ?_
    rw [h tx htx]
    simpa using ht

/-- On such a list the start indices survive the move of the send exactly when they agree. -/
lemma ActiveShape.starts_iff {txs : List ElusivTransaction} (h : ActiveShape txs) :
    (sendsLast txs).map ElusivTransaction.merkleStartIndex
      = txs.map ElusivTransaction.merkleStartIndex ↔ StartsAgree txs := by
  obtain ⟨topups, rest, rfl, htopups, hrest⟩ := h
  have hdrop : behindSend (topups ++ rest)
      = (rest.dropWhile fun tx => tx.txType == .TOPUP).tail := by
    rw [behindSend, List.dropWhile_append_of_pos fun tx htx => by rw [htopups tx htx]; rfl]
  rw [StartsAgree, hdrop, sendsLast, List.filter_append, List.filter_append,
    filter_of_forall_txType htopups, filter_of_forall_txType htopups, if_pos rfl,
    if_neg (by decide)]
  rcases hrest with rfl | ⟨send, behind, rfl, hsend, hbehind⟩
  · simp
  · -- `send` is the only send of the list
    have honly : ∀ s ∈ topups ++ send :: behind, s.txType = .SEND → s = send := by
      intro s hs htype
      rcases List.mem_append.mp hs with hs | hs
      · rw [htopups s hs] at htype
        nomatch htype
      · rcases List.mem_cons.mp hs with rfl | hs
        · rfl
        · rw [hbehind s hs] at htype
          nomatch htype
    rw [List.filter_cons_of_neg (by rw [hsend]; decide), List.filter_cons_of_pos (by rw [hsend]; rfl),
      filter_of_forall_txType hbehind, filter_of_forall_txType hbehind, if_pos rfl,
      if_neg (by decide), List.dropWhile_cons_of_neg (by rw [hsend]; decide), List.nil_append,
      List.append_assoc, List.map_append, List.map_append, List.map_append, List.append_cancel_left_eq,
      List.map_singleton, List.map_cons, append_singleton_eq_cons_iff, List.forall_mem_map,
      List.tail_cons]
    constructor
    · intro h tx htx s hs htype
      rw [honly s hs htype]
      exact h tx htx
    · exact fun h tx htx => h tx htx send (by simp) hsend

/-- A list of this shape has one send at most. -/
lemma ActiveShape.sends {txs : List ElusivTransaction} (h : ActiveShape txs) :
    (txs.filter fun tx => tx.txType == .SEND) = [] ∨
      ∃ send ∈ txs, send.txType = .SEND ∧ (txs.filter fun tx => tx.txType == .SEND) = [send] := by
  obtain ⟨topups, rest, rfl, htopups, hrest⟩ := h
  rw [List.filter_append, filter_of_forall_txType htopups, if_neg (by decide), List.nil_append]
  rcases hrest with rfl | ⟨send, behind, rfl, hsend, hbehind⟩
  · exact Or.inl rfl
  · refine Or.inr ⟨send, by simp, hsend, ?_⟩
    rw [List.filter_cons_of_pos (by rw [hsend]; rfl), filter_of_forall_txType hbehind,
      if_neg (by decide)]

namespace CommitmentScheme

variable {scheme : CommitmentScheme}
  {getTxsFromNonces : List (ℕ × Bool) → Except Failure (List ElusivTransaction)} {fuel : ℕ}

/-- **Commitments and start indices of the active transactions correspond exactly when** no commitment
occurs twice and every topup behind the send has its start index.  The call returns whenever the
commitment of the send can be rebuilt. -/
theorem getIncompleteCommitmentsForTxs_iff {tokenType : TokenType}
    {beforeSend : Option ElusivTransaction} {txs : List ElusivTransaction} {m m₁ : TxManager}
    (hactive : exec (getActiveTxs getTxsFromNonces fuel tokenType beforeSend) m = (.ok txs, m₁))
    (m₂ : TxManager) (hrebuilt : ∀ send ∈ txs, send.txType = .SEND → ∃ comm m₃,
      exec (scheme.getCommitmentForPartialSend getTxsFromNonces fuel send) m₂ = (.ok comm, m₃)) :
    ∃ comms startIndices m₃,
      exec (scheme.getIncompleteCommitmentsForTxs getTxsFromNonces fuel txs) m₂
        = (.ok (comms, startIndices), m₃) ∧
      (scheme.Correspond txs comms startIndices ↔
        (txs.map scheme.hashOf).Nodup ∧ StartsAgree txs) := by
  have hshape := activeShape_of_getActiveTxs hactive
  have hrun : ∃ comms startIndices m₃,
      exec (scheme.getIncompleteCommitmentsForTxs getTxsFromNonces fuel txs) m₂
        = (.ok (comms, startIndices), m₃) := by
    rw [getIncompleteCommitmentsForTxs]
    rcases hshape.sends with hnil | ⟨send, hmem, htype, hone⟩
    · rw [hnil]
      exact ⟨_, _, _, rfl⟩
    · obtain ⟨comm, m₃, hcomm⟩ := hrebuilt send hmem htype
      rw [hone]
      refine ⟨_, _, m₃, exec_bind_eq_ok.mpr ⟨[comm], m₃, ?_, rfl⟩⟩
      rw [List.mapM_cons, List.mapM_nil]
      exact exec_bind_eq_ok.mpr ⟨comm, m₃, hcomm, rfl⟩
  obtain ⟨comms, startIndices, m₃, hrun⟩ := hrun
  refine ⟨comms, startIndices, m₃, hrun, ?_⟩
  obtain ⟨rfl, items, rfl, hitems⟩ := getIncompleteCommitmentsForTxs_eq_ok hrun
  rw [correspond_iff hitems, hshape.starts_iff]

/-! ### A topup on the nonce of a send -/

/-- Commitments are hashed to nullifier, balance and start index. -/
def plainScheme : CommitmentScheme :=
  { generateNullifier := fun nonce => [UInt8.ofNat (nonce + 1)]
    getCommitmentHash := fun c =>
      c.nullifier ++ [UInt8.ofNat c.balance.toNat, UInt8.ofNat c.assocCommIndex]
    hasCommitment := fun _ _ => true }

lemma one_le_MAX_UINT32 : 1 ≤ MAX_UINT32 := by decide

lemma seven_le_MAX_UINT20 : 7 ≤ MAX_UINT20 := by decide

lemma sixtyFive_nonneg : (0 : ℤ) ≤ 65 := by decide

lemma sixtyFive_le_MAX_UINT64 : (65 : ℤ) ≤ MAX_UINT64 := by decide

/-- A send that leaves 65 on nonce 1, with start index 7. -/
def sendFrom7 : ElusivTransaction :=
  { ElusivTransaction.bareSend 1 .LAMPORTS 30 5 0
      (some ⟨1, .LAMPORTS, 7, 65, one_le_MAX_UINT32, seven_le_MAX_UINT20, sixtyFive_nonneg,
        sixtyFive_le_MAX_UINT64⟩) with
    commitmentHash := [2, 65, 7], merkleStartIndex := 7 }

/-- A topup on the same nonce, with start index 3. -/
def topupFrom3 : ElusivTransaction :=
  { ElusivTransaction.bareTopup 1 .LAMPORTS 10 1 with
    commitmentHash := [2, 10, 3], merkleStartIndex := 3 }

/-- One topup, then the topup and the send on one nonce. -/
def sharedSendChain : History :=
  .ofList [.bareTopup 0 .LAMPORTS 100 2, topupFrom3, sendFrom7] (by decide)

lemma getActiveTxs_sharedSendChain :
    (exec (getActiveTxs sharedSendChain.fetcher 15 .LAMPORTS none) .new).1
      = .ok [sendFrom7, topupFrom3] := by
  decide +kernel

/-- The commitments of the topup and the send stand against the start indices of the send and the
topup. -/
theorem getIncompleteCommitmentsForTxs_iff_sharedSend :
    ∃ comms startIndices m₃, exec (plainScheme.getIncompleteCommitmentsForTxs sharedSendChain.fetcher
        15 [sendFrom7, topupFrom3]) .new = (.ok (comms, startIndices), m₃) ∧
      ¬ plainScheme.Correspond [sendFrom7, topupFrom3] comms startIndices := by
  have hrebuilt : ∀ send ∈ [sendFrom7, topupFrom3], send.txType = .SEND → ∃ comm m₃,
      exec (plainScheme.getCommitmentForPartialSend sharedSendChain.fetcher 15 send) .new
        = (.ok comm, m₃) := by
    intro send hmem htype
    rcases List.mem_cons.mp hmem with rfl | hmem
    · exact ⟨_, _, rfl⟩
    · rw [List.mem_singleton.mp hmem] at htype
      nomatch htype
  obtain ⟨comms, startIndices, m₃, hrun, hiff⟩ := getIncompleteCommitmentsForTxs_iff
    (Prod.ext getActiveTxs_sharedSendChain rfl) .new hrebuilt
  exact ⟨comms, startIndices, m₃, hrun, fun h => absurd (hiff.mp h) (by decide)⟩

/-- **A topup behind a send of its nonce**: the start indices 7 and 3 are returned for the commitments
with the start indices 3 and 7. -/
theorem getIncompleteCommitmentsForTxs_swapped :
    (exec (getActiveTxs sharedSendChain.fetcher 15 .LAMPORTS none) .new).1
        = .ok [sendFrom7, topupFrom3] ∧
      ∃ comms, (exec (plainScheme.getIncompleteCommitmentsForTxs sharedSendChain.fetcher 15
          [sendFrom7, topupFrom3]) .new).1 = .ok (comms, [7, 3]) ∧
        comms.map IncompleteCommitment.assocCommIndex = [3, 7] ∧
        ¬ plainScheme.Correspond [sendFrom7, topupFrom3] comms [7, 3] :=
  ⟨getActiveTxs_sharedSendChain, _, rfl, by decide, by decide⟩

end CommitmentScheme

end ElusivSdk
