import ElusivSdk.TxBuilding.ValueConservation

/-!
# Every commitment is spent once

A send spends all active commitments of its token, and its own commitment takes their place.  Over every
run of a client nothing is spent twice, and nothing is lost: what no send has spent is active.

* `mem_upToSend_iff` — a list down to its first send holds what no send stands above.
* `NextSend` — the send that spends a transaction: the first one of the token after it.
* `Client.Spends` — every send was built with the commitments down to the send before it; every step of a
  client keeps it.
* **`Client.spends_once`** — no nullifier is revealed twice, and the active transactions are the others.
-/

namespace ElusivSdk

open Descending Format InstructionBuilding Program TransactionBuilding Transition

/-! ## Down to the latest send, by nonces -/

/-- In descending order, what stands down to the first send has no send above it. -/
lemma mem_upToSend_iff {txs : List ElusivTransaction}
    (hstrict : txs.Pairwise fun x y => y.nonce < x.nonce) {tx : ElusivTransaction} :
    tx ∈ upToSend txs ↔ tx ∈ txs ∧ ∀ x ∈ txs, tx.nonce < x.nonce → x.txType ≠ .SEND := by
  induction txs with
  | nil => simp [upToSend]
  | cons y rest ih =>
      obtain ⟨hlt, hrest⟩ := List.pairwise_cons.mp hstrict
      have ih := ih hrest
      rw [upToSend]
      cases htype : y.txType with
      | SEND =>
          rw [List.mem_singleton]
          constructor
          · rintro rfl
            refine ⟨List.mem_cons_self, fun x hx habove => ?_⟩
            rcases List.mem_cons.mp hx with rfl | hx
            · exact absurd habove (lt_irrefl _)
            · exact absurd habove (Nat.lt_asymm (hlt x hx))
          · rintro ⟨htx, hnone⟩
            rcases List.mem_cons.mp htx with rfl | htx
            · rfl
            · exact absurd htype (hnone y List.mem_cons_self (hlt tx htx))
      | TOPUP =>
          show tx ∈ y :: upToSend rest ↔ _
          rw [List.mem_cons, List.mem_cons, List.forall_mem_cons, ih]
          constructor
          · rintro (rfl | ⟨htx, hnone⟩)
            · refine ⟨Or.inl rfl, fun _ => by simp [htype], fun x hx habove => ?_⟩
              exact absurd habove (Nat.lt_asymm (hlt x hx))
            · exact ⟨Or.inr htx, fun _ => by simp [htype], hnone⟩
          · rintro ⟨rfl | htx, -, hnone⟩
            · exact Or.inl rfl
            · exact Or.inr ⟨htx, hnone⟩

namespace History

variable {h : History}

/-- `send` is the first send after `tx`, of its token. -/
structure NextSend (h : History) (tx send : ElusivTransaction) : Prop where
  tokenType_eq : send.tokenType = tx.tokenType
  nonce_lt : tx.nonce < send.nonce
  first : ∀ x, x ∈ h.txsAt x.nonce → x.tokenType = tx.tokenType → tx.nonce < x.nonce →
    x.nonce < send.nonce → x.txType ≠ .SEND

/-- One transaction on a nonce at most. -/
lemma eq_of_single (hsingle : ∀ n, (h.txsAt n).length ≤ 1) {n : ℕ} {x y : ElusivTransaction}
    (hx : x ∈ h.txsAt n) (hy : y ∈ h.txsAt n) : x = y := by
  have hlen := hsingle n
  rcases htxs : h.txsAt n with _ | ⟨z, _ | ⟨z', rest⟩⟩
  · rw [htxs] at hx
    exact absurd hx List.not_mem_nil
  · rw [htxs, List.mem_singleton] at hx hy
    rw [hx, hy]
  · rw [htxs, List.length_cons, List.length_cons] at hlen
    omega

lemma mem_below_tokenBucket (hd : h.DistinctHashes) {tokenType : TokenType} {hi : ℕ}
    {tx : ElusivTransaction} : tx ∈ below (h.tokenBucket (some tokenType)) hi ↔
      tx.nonce < hi ∧ tx ∈ h.txsAt tx.nonce ∧ tx.tokenType = tokenType := by
  rw [(h.graded_tokenBucket (some tokenType)).mem_between, tokenBucket, hd.bucket_eq, List.mem_filter]
  simp [ElusivTransaction.hasToken]

/-- What stands below a nonce of the token, down to the latest send. -/
lemma mem_upToSend_below (hsingle : ∀ n, (h.txsAt n).length ≤ 1) {tokenType : TokenType} {hi : ℕ}
    {tx : ElusivTransaction} : tx ∈ upToSend (below (h.tokenBucket (some tokenType)) hi) ↔
      tx.nonce < hi ∧ tx ∈ h.txsAt tx.nonce ∧ tx.tokenType = tokenType ∧
        ∀ x, x ∈ h.txsAt x.nonce → x.tokenType = tokenType → tx.nonce < x.nonce → x.nonce < hi →
          x.txType ≠ .SEND := by
  have hd := distinctHashes_of_single hsingle
  have hstrict := (h.graded_tokenBucket (some tokenType)).between_strict
    (length_tokenBucket_le hsingle (some tokenType)) 0 hi
  rw [mem_upToSend_iff hstrict, mem_below_tokenBucket hd]
  constructor
  · rintro ⟨⟨hlt, htx, htoken⟩, hnone⟩
    refine ⟨hlt, htx, htoken, fun x hx hxtoken habove hbelow => ?_⟩
    exact hnone x ((mem_below_tokenBucket hd).mpr ⟨hbelow, hx, hxtoken⟩) habove
  · rintro ⟨hlt, htx, htoken, hnone⟩
    refine ⟨⟨hlt, htx, htoken⟩, fun x hx habove => ?_⟩
    obtain ⟨hbelow, hx, hxtoken⟩ := (mem_below_tokenBucket hd).mp hx
    exact hnone x hx hxtoken habove hbelow

/-- A transaction with a send above it has a next send. -/
lemma exists_nextSend {tx x : ElusivTransaction} (hx : x ∈ h.txsAt x.nonce)
    (htoken : x.tokenType = tx.tokenType) (hlt : tx.nonce < x.nonce) (htype : x.txType = .SEND) :
    ∃ send, send ∈ h.txsAt send.nonce ∧ send.txType = .SEND ∧ h.NextSend tx send := by
  -- by induction on the nonce of the send: either it is the first, or there is one below it
  induction hn : x.nonce using Nat.strong_induction_on generalizing x with
  | _ n ih =>
      subst hn
      by_cases hfirst : ∀ y, y ∈ h.txsAt y.nonce → y.tokenType = tx.tokenType → tx.nonce < y.nonce →
          y.nonce < x.nonce → y.txType ≠ .SEND
      · exact ⟨x, hx, htype, htoken, hlt, hfirst⟩
      · push Not at hfirst
        obtain ⟨y, hy, hytoken, hylt, hyx, hytype⟩ := hfirst
        exact ih y.nonce hyx hy hytoken hylt hytype rfl

end History

namespace SequentialChain

variable {scheme : CommitmentScheme} {h : History}

/-- The next transaction of such a chain is on the next nonce. -/
lemma nonce_eq_length (hs : SequentialChain scheme h) {tx : ElusivTransaction} {pos : ℕ} {h' : History}
    (hgrow : h.grow (.land tx pos) = some h') (hs' : SequentialChain scheme h') :
    tx.nonce = h.length := by
  rw [History.grow] at hgrow
  split_ifs at hgrow with hstatus
  obtain rfl := Option.some.inj hgrow
  rcases Nat.lt_trichotomy tx.nonce h.length with hlt | heq | hgt
  · -- the nonce would hold two transactions
    have hold := List.length_pos_iff.mpr (hs.gapless tx.nonce hlt)
    have hnew := hs'.single tx.nonce
    rw [History.txsAt_land_nonce, History.putAt, List.length_append, List.length_cons,
      List.length_take, List.length_drop] at hnew
    omega
  · exact heq
  · -- the nonce `h.length` would hold none
    have hlen : h.length < (h.land tx pos hstatus).length := by
      show h.length < max h.length (tx.nonce + 1)
      omega
    have hne := hs'.gapless h.length hlen
    rw [History.txsAt_land_of_ne (Nat.ne_of_lt hgt), h.eq_nil_of_length_le _ (Nat.le_refl _)] at hne
    exact absurd rfl hne

lemma nullifier_commitmentOf (hs : SequentialChain scheme h) {tx : ElusivTransaction}
    (htx : tx ∈ h.txsAt tx.nonce) :
    (scheme.commitmentOf tx).nullifier = scheme.generateNullifier tx.nonce := by
  obtain ⟨metadata, hnonce, hcomm⟩ := hs.described _ tx htx
  rw [← hcomm, CommitmentScheme.commFromMetadata, hnonce]

/-- Transactions whose commitments have one nullifier are one. -/
lemma eq_of_nullifier (hs : SequentialChain scheme h) (hlen : h.length ≤ MAX_UINT32)
    (hinj : Set.InjOn scheme.generateNullifier {n | n ≤ MAX_UINT32}) {tx tx' : ElusivTransaction}
    (htx : tx ∈ h.txsAt tx.nonce) (htx' : tx' ∈ h.txsAt tx'.nonce)
    (heq : (scheme.commitmentOf tx).nullifier = (scheme.commitmentOf tx').nullifier) : tx = tx' := by
  have hle : ∀ {x : ElusivTransaction}, x ∈ h.txsAt x.nonce → x.nonce ≤ MAX_UINT32 := fun hx =>
    Nat.le_trans (Nat.le_of_lt (History.lt_length_of_mem_txs (History.mem_txs.mpr hx))) hlen
  rw [hs.nullifier_commitmentOf htx, hs.nullifier_commitmentOf htx'] at heq
  have hnonce : tx.nonce = tx'.nonce := hinj (hle htx) (hle htx') heq
  rw [← hnonce] at htx'
  exact History.eq_of_single hs.single htx htx'

end SequentialChain

/-! ## What sends spend -/

namespace Client

/-- Every send was built with the commitments of its token down to the send before it. -/
structure Spends (scheme : CommitmentScheme) (s : Client) : Prop where
  inputs : ∀ send ∈ s.sends, send.1.inputCommitments.Perm
    ((upToSend (below (s.chain.tokenBucket (some send.2.tokenType)) send.2.nonce)).map
      scheme.commitmentOf)
  newest_first : s.sends.Pairwise fun x y => y.2.nonce < x.2.nonce
  txType_eq : ∀ send ∈ s.sends, send.2.txType = .SEND

variable {scheme : CommitmentScheme} {s : Client}

lemma spends_start : Spends scheme start :=
  ⟨fun _ hsend => absurd hsend List.not_mem_nil, List.Pairwise.nil,
    fun _ hsend => absurd hsend List.not_mem_nil⟩

lemma Kept.nonce_lt (hs : Kept scheme s) {send : SendTx × ElusivTransaction} (hsend : send ∈ s.sends) :
    send.2.nonce < s.chain.length :=
  History.lt_length_of_mem_txs (History.mem_txs.mpr (hs.rebuilt send hsend).1)

/-- A transaction on the next nonce changes nothing of what was spent. -/
lemma Spends.land (hp : Spends scheme s) (hs : Kept scheme s) {tx : ElusivTransaction}
    {chain : History} (hgrow : s.chain.grow (.land tx 0) = some chain)
    (hchain : SequentialChain scheme chain) : ∀ send ∈ s.sends, send.1.inputCommitments.Perm
      ((upToSend (below (chain.tokenBucket (some send.2.tokenType)) send.2.nonce)).map
        scheme.commitmentOf) := by
  intro send hsend
  have hnonce := hs.chain.nonce_eq_length hgrow hchain
  have hlt := hs.nonce_lt hsend
  have hsame : below (chain.tokenBucket (some send.2.tokenType)) send.2.nonce
      = below (s.chain.tokenBucket (some send.2.tokenType)) send.2.nonce := by
    refine between_congr fun n _ hn => ?_
    have hother := (History.grow_spec hgrow).2.2 n (show n ≠ tx.nonce by omega)
    rw [History.tokenBucket, History.tokenBucket, History.bucket, History.bucket, hother]
  rw [hsame]
  exact hp.inputs send hsend

section Steps

attribute [local irreducible] Triple

variable {poseidon : Poseidon} {circuits : Circuits poseidon} {serialization : Serialization}
  {seedWrapper : SeedWrapper} {accs : ProgramAccounts} {owner : PublicKey}
  {hasCommitment : Bytes → ℕ → Bool}

/-- `buildTopUpTx` builds from what it has fetched. -/
lemma buildTopUpTx_eq_ok {getTxsFromNonces : List (ℕ × Bool) → Except Failure (List ElusivTransaction)}
    {fuel : ℕ} {manualMerge : Bool} {request : TopupRequest} {answers : Answers} {built : BuiltTopup}
    {params : FetchedParams} {m m' : TxManager}
    (h : exec (buildTopUpTx circuits serialization seedWrapper accs owner getTxsFromNonces fuel
      manualMerge request answers) m = (.ok (built, params), m')) :
    (∃ m₁, exec (fetchTxRemoteParams seedWrapper poseidon getTxsFromNonces fuel answers
      request.tokenType) m = (.ok params, m₁)) ∧
      buildTopupOrMerge circuits serialization seedWrapper accs owner manualMerge request params
        = .ok built := by
  obtain ⟨params', m₁, hparams, hbuilt⟩ := exec_bind_eq_ok.mp h
  obtain ⟨built', m₂, hbuild, hpure⟩ := exec_bind_eq_ok.mp hbuilt
  obtain ⟨rfl, rfl⟩ := Prod.mk.inj (Except.ok.inj (Prod.mk.inj hpure).1)
  rw [exec_lift] at hbuild
  exact ⟨⟨m₁, hparams⟩, (Prod.mk.inj hbuild).1⟩

lemma buildFetchedSend_eq_ok
    {getTxsFromNonces : List (ℕ × Bool) → Except Failure (List ElusivTransaction)} {fuel : ℕ}
    {request : SendRequest} {answers : Answers} {send : SendTx × Fee} {m m' : TxManager}
    (h : exec (buildFetchedSend circuits serialization seedWrapper getTxsFromNonces fuel request answers)
      m = (.ok send, m')) :
    ∃ params, (∃ m₁, exec (fetchTxRemoteParams seedWrapper poseidon getTxsFromNonces fuel answers
      request.tokenType) m = (.ok params, m₁)) ∧
      buildSend circuits serialization seedWrapper request params = .ok send := by
  obtain ⟨params, m₁, hparams, hbuild⟩ := exec_bind_eq_ok.mp h
  rw [exec_lift] at hbuild
  exact ⟨params, ⟨m₁, hparams⟩, (Prod.mk.inj hbuild).1⟩

/-- The chain that a send was built on, and what was read there. -/
structure SentOn (circuits : Circuits poseidon) (serialization : Serialization)
    (seedWrapper : SeedWrapper) (hasCommitment : Bytes → ℕ → Bool) (s s' : Client)
    (send : SendTx × Fee) (tx : ElusivTransaction) : Prop where
  fetched : ∃ request params data, params.activeCommitments
      = (sendsLast (s.chain.activeTxs request.tokenType)).map
        (seedWrapper.commitmentScheme poseidon hasCommitment).commitmentOf ∧
    params.lastNonce = (s.chain.length : ℤ) - 1 ∧
    buildSend circuits serialization seedWrapper request params = .ok send ∧
    landedSend serialization seedWrapper send data = .ok tx
  grow : s.chain.grow (.land tx 0) = some s'.chain
  sends_eq : s'.sends = (send.1, tx) :: s.sends

/-- **What a step does to the sends.**  It leaves them, and one transaction lands at most, or a send lands
that was built from what the chain holds. -/
theorem Kept.step_sends (hs : Kept (seedWrapper.commitmentScheme poseidon hasCommitment) s)
    (hsep : (seedWrapper.commitmentScheme poseidon hasCommitment).Separates)
    (hlen : s.chain.length ≤ MAX_UINT32) {e : ClientEvent} {s' : Client}
    (h : Client.step circuits serialization seedWrapper accs owner s e = some s') :
    s'.sends = s.sends ∨
      ∃ send tx, SentOn circuits serialization seedWrapper hasCommitment s s' send tx := by
  have hnodup : ∀ tokenType, ((s.chain.activeTxs tokenType).map
      ElusivTransaction.commitmentHash).Nodup := by
    intro tokenType
    rw [hs.chain.activeTxs_eq hlen]
    exact (hs.chain.nodup_hashes hsep tokenType).sublist ((upToSend_sublist _).map _)
  have hfetch : ∀ {answers : Answers} {tokenType : TokenType} {params : FetchedParams} {m₁ : TxManager},
      exec (fetchTxRemoteParams seedWrapper poseidon s.chain.fetcher s.chain.enoughFuel answers tokenType)
        s.manager = (.ok params, m₁) →
      params.activeCommitments = (sendsLast (s.chain.activeTxs tokenType)).map
          (seedWrapper.commitmentScheme poseidon hasCommitment).commitmentOf ∧
        params.lastNonce = (s.chain.length : ℤ) - 1 := by
    intro answers tokenType params m₁ hexec
    have hread := (fetchTxRemoteParams_spec hs.coherent hs.chain.gapless hlen hs.chain.tells
      (hnodup tokenType) answers).of_ok rfl hexec
    exact ⟨hread.1, hread.2.1⟩
  cases e with
  | query q => exact Or.inl (Option.some.inj h ▸ rfl)
  | giveUp => exact Or.inl (Option.some.inj h ▸ rfl)
  | topup manualMerge request answers fee signature data =>
      rw [Client.step] at h
      split_ifs at h
      split at h
      · exact Or.inl (Option.some.inj h ▸ rfl)
      · obtain ⟨chain, -, rfl⟩ := Option.map_eq_some_iff.mp h
        exact Or.inl rfl
      · rename_i send params m hexec
        obtain ⟨⟨m₁, hparams⟩, hbuilt⟩ := buildTopUpTx_eq_ok hexec
        obtain ⟨hactive, hlast⟩ := hfetch hparams
        rcases landSend_cases h with rfl | ⟨tx, chain, hlanded, hgrow, rfl⟩
        · exact Or.inl rfl
        · exact Or.inr ⟨send, tx, ⟨mergeRequest accs request.tokenType owner request.warden none, params,
            data, hactive, hlast, buildTopupOrMerge_merge hbuilt, hlanded⟩, hgrow, rfl⟩
  | topupMerged fee signature =>
      obtain ⟨merged, -, rfl | ⟨storeTx, -, hland⟩⟩ := topupMerged_cases h
      · exact Or.inl rfl
      · obtain ⟨chain, -, rfl⟩ := Option.map_eq_some_iff.mp hland
        exact Or.inl rfl
  | send request answers data =>
      rw [Client.step] at h
      split_ifs at h
      split at h
      · exact Or.inl (Option.some.inj h ▸ rfl)
      · rename_i send m hexec
        obtain ⟨params, ⟨m₁, hparams⟩, hsend⟩ := buildFetchedSend_eq_ok hexec
        obtain ⟨hactive, hlast⟩ := hfetch hparams
        rcases landSend_cases h with rfl | ⟨tx, chain, hlanded, hgrow, rfl⟩
        · exact Or.inl rfl
        · exact Or.inr ⟨send, tx, ⟨request, params, data, hactive, hlast, hsend, hlanded⟩, hgrow, rfl⟩

/-- The send that lands spends what is active. -/
lemma SentOn.inputs {s' : Client} {send : SendTx × Fee} {tx : ElusivTransaction}
    (hsent : SentOn circuits serialization seedWrapper hasCommitment s s' send tx)
    (hs : Kept (seedWrapper.commitmentScheme poseidon hasCommitment) s)
    (hsep : (seedWrapper.commitmentScheme poseidon hasCommitment).Separates)
    (hlen : s.chain.length ≤ MAX_UINT32) :
    tx.nonce = s.chain.length ∧ tx.txType = .SEND ∧ send.1.inputCommitments.Perm
      ((upToSend (below (s.chain.tokenBucket (some tx.tokenType)) tx.nonce)).map
        (seedWrapper.commitmentScheme poseidon hasCommitment).commitmentOf) := by
  obtain ⟨request, params, data, hactive, hlast, hsend, hlanded⟩ := hsent.fetched
  obtain ⟨hbuilt, hlandedAs, -⟩ := landedSend_eq_ok hasCommitment hsend hlanded
  have hnonce : tx.nonce = s.chain.length := by
    rw [hlandedAs.nonce_eq, hbuilt.nonce_eq, hlast]
    omega
  have htoken : tx.tokenType = request.tokenType := hlandedAs.tokenType_eq.trans hbuilt.tokenType_eq
  have hup := hs.chain.activeTxs_eq hlen request.tokenType
  have hnodup : ((s.chain.activeTxs request.tokenType).map ElusivTransaction.commitmentHash).Nodup := by
    rw [hup]
    exact (hs.chain.nodup_hashes hsep request.tokenType).sublist ((upToSend_sublist _).map _)
  have htells : ∀ x ∈ s.chain.activeTxs request.tokenType,
      (seedWrapper.commitmentScheme poseidon hasCommitment).Tells x := fun x hx =>
    hs.chain.tells _ x (hs.chain.gapless.mem_activeTxs hlen hx).1
  have hinputs : send.1.inputCommitments = (sendsLast (s.chain.activeTxs request.tokenType)).map
      (seedWrapper.commitmentScheme poseidon hasCommitment).commitmentOf := by
    rw [hbuilt.inputCommitments_eq, hactive]
    exact CommitmentScheme.commitmentSet_commitmentOf htells hnodup
  refine ⟨hnonce, hlandedAs.txType_eq, ?_⟩
  rw [hinputs, htoken, hnonce, ← History.tokenTxs, ← hup]
  exact (sendsLast_perm _).map _

/-- **Every step keeps what sends spend.** -/
theorem Spends.step (hp : Spends (seedWrapper.commitmentScheme poseidon hasCommitment) s)
    (hs : Kept (seedWrapper.commitmentScheme poseidon hasCommitment) s)
    (hsep : (seedWrapper.commitmentScheme poseidon hasCommitment).Separates)
    (hlen : s.chain.length ≤ MAX_UINT32) {e : ClientEvent} {s' : Client}
    (h : Client.step circuits serialization seedWrapper accs owner s e = some s') :
    Spends (seedWrapper.commitmentScheme poseidon hasCommitment) s' := by
  have hs' := hs.step hsep hlen h
  rcases hs.step_sends hsep hlen h with hsends | ⟨send, tx, hsent⟩
  · refine ⟨?_, hsends ▸ hp.newest_first, hsends ▸ hp.txType_eq⟩
    rw [hsends]
    rcases step_chain h with hchain | ⟨tx, hgrow⟩
    · rw [hchain]
      exact hp.inputs
    · exact hp.land hs hgrow hs'.chain
  · obtain ⟨hnonce, htype, hinputs⟩ := hsent.inputs hs hsep hlen
    have hold := hp.land hs hsent.grow hs'.chain
    have hsame : below (s'.chain.tokenBucket (some tx.tokenType)) tx.nonce
        = below (s.chain.tokenBucket (some tx.tokenType)) tx.nonce := by
      refine between_congr fun n _ hn => ?_
      have hother := (History.grow_spec hsent.grow).2.2 n (Nat.ne_of_lt hn)
      rw [History.tokenBucket, History.tokenBucket, History.bucket, History.bucket, hother]
    refine ⟨?_, ?_, ?_⟩
    · rw [hsent.sends_eq, List.forall_mem_cons]
      exact ⟨hsame ▸ hinputs, hold⟩
    · rw [hsent.sends_eq]
      refine List.pairwise_cons.mpr ⟨fun y hy => ?_, hp.newest_first⟩
      rw [hnonce]
      exact hs.nonce_lt hy
    · rw [hsent.sends_eq, List.forall_mem_cons]
      exact ⟨htype, hp.txType_eq⟩

/-- What a client keeps, and what its sends spend, after every run. -/
lemma spends_of_run (hsep : (seedWrapper.commitmentScheme poseidon hasCommitment).Separates)
    {events : List ClientEvent}
    (hrun : run (Client.step circuits serialization seedWrapper accs owner) start events = some s)
    (hlen : s.chain.length ≤ MAX_UINT32) :
    Kept (seedWrapper.commitmentScheme poseidon hasCommitment) s ∧
      Spends (seedWrapper.commitmentScheme poseidon hasCommitment) s := by
  revert hlen
  refine run_invariant (I := fun s => s.chain.length ≤ MAX_UINT32 → Kept _ s ∧ Spends _ s) ?_
    (fun _ => ⟨kept_start, spends_start⟩) (allowed_true start events) hrun
  intro s e s' hs _ hstep hlen'
  have hlen := Nat.le_trans (length_le_step hstep) hlen'
  obtain ⟨hk, hp⟩ := hs hlen
  exact ⟨hk.step hsep hlen hstep, hp.step hk hsep hlen hstep⟩

end Steps

/-! ## Spent once -/

/-- No commitment is spent twice, and none is lost. -/
structure SpentOnce (scheme : CommitmentScheme) (s : Client) : Prop where
  /-- A send spends the commitments whose next send it is. -/
  spends_iff : ∀ send ∈ s.sends, ∀ comm, comm ∈ send.1.inputCommitments ↔
    ∃ tx, tx ∈ s.chain.txsAt tx.nonce ∧ s.chain.NextSend tx send.2 ∧ scheme.commitmentOf tx = comm
  nodup : ∀ send ∈ s.sends, (send.1.inputCommitments.map IncompleteCommitment.nullifier).Nodup
  /-- A nullifier is revealed by one send only. -/
  once : ∀ send ∈ s.sends, ∀ send' ∈ s.sends, ∀ comm ∈ send.1.inputCommitments,
    ∀ comm' ∈ send'.1.inputCommitments, comm.nullifier = comm'.nullifier → send = send'
  /-- The active transactions are those that no send has spent, whatever is cached. -/
  active : ∀ m, Coherent s.chain m → ∀ fuel, s.chain.enoughFuel ≤ fuel → ∀ tokenType,
    ∃ txs, (exec (getActiveTxs s.chain.fetcher fuel tokenType none) m).1 = .ok txs ∧
      ∀ tx, tx ∈ txs ↔ tx ∈ s.chain.txsAt tx.nonce ∧ tx.tokenType = tokenType ∧
        ∀ send ∈ s.sends, scheme.commitmentOf tx ∉ send.1.inputCommitments

lemma Spends.spends_iff (hp : Spends scheme s) (hs : Kept scheme s) {send : SendTx × ElusivTransaction}
    (hsend : send ∈ s.sends) {comm : IncompleteCommitment} : comm ∈ send.1.inputCommitments ↔
      ∃ tx, tx ∈ s.chain.txsAt tx.nonce ∧ s.chain.NextSend tx send.2 ∧
        scheme.commitmentOf tx = comm := by
  rw [(hp.inputs send hsend).mem_iff, List.mem_map]
  refine exists_congr fun tx => ?_
  rw [History.mem_upToSend_below hs.chain.single]
  constructor
  · rintro ⟨⟨hlt, htx, htoken, hnone⟩, hcomm⟩
    exact ⟨htx, ⟨htoken.symm, hlt, fun x hx hxtoken => hnone x hx (hxtoken.trans htoken)⟩, hcomm⟩
  · rintro ⟨htx, hnext, hcomm⟩
    refine ⟨⟨hnext.nonce_lt, htx, hnext.tokenType_eq.symm, fun x hx hxtoken => ?_⟩, hcomm⟩
    exact hnext.first x hx (hxtoken.trans hnext.tokenType_eq)

/-- There is one next send at most. -/
lemma Spends.eq_of_nextSend (hp : Spends scheme s) (hs : Kept scheme s) {tx : ElusivTransaction}
    {send send' : SendTx × ElusivTransaction} (hsend : send ∈ s.sends) (hsend' : send' ∈ s.sends)
    (hnext : s.chain.NextSend tx send.2) (hnext' : s.chain.NextSend tx send'.2) : send = send' := by
  have hnonce : send.2.nonce = send'.2.nonce := by
    rcases Nat.lt_trichotomy send.2.nonce send'.2.nonce with hlt | heq | hgt
    · exact absurd (hp.txType_eq send hsend) (hnext'.first _ (hs.rebuilt send hsend).1 hnext.tokenType_eq
        hnext.nonce_lt hlt)
    · exact heq
    · exact absurd (hp.txType_eq send' hsend') (hnext.first _ (hs.rebuilt send' hsend').1
        hnext'.tokenType_eq hnext'.nonce_lt hgt)
  have hnodup : (s.sends.map fun x => x.2.nonce).Nodup :=
    List.pairwise_map.mpr (hp.newest_first.imp fun hlt => Nat.ne_of_gt hlt)
  exact List.inj_on_of_nodup_map hnodup hsend hsend' hnonce

/-- What no send has spent has no send above it. -/
lemma Spends.unspent_iff (hp : Spends scheme s) (hs : Kept scheme s) (hlen : s.chain.length ≤ MAX_UINT32)
    (hinj : Set.InjOn scheme.generateNullifier {n | n ≤ MAX_UINT32}) {tx : ElusivTransaction}
    (htx : tx ∈ s.chain.txsAt tx.nonce) :
    (∀ send ∈ s.sends, scheme.commitmentOf tx ∉ send.1.inputCommitments) ↔
      ∀ x, x ∈ s.chain.txsAt x.nonce → x.tokenType = tx.tokenType → tx.nonce < x.nonce →
        x.txType ≠ .SEND := by
  constructor
  · intro hunspent x hx htoken hlt htype
    obtain ⟨send, hsend, hsendtype, hnext⟩ := History.exists_nextSend hx htoken hlt htype
    obtain ⟨sendTx, hlogged⟩ := hs.logged send.nonce send hsend hsendtype
    exact hunspent _ hlogged ((hp.spends_iff hs hlogged).mpr ⟨tx, htx, hnext, rfl⟩)
  · intro hnone send hsend hmem
    obtain ⟨tx', htx', hnext, hcomm⟩ := (hp.spends_iff hs hsend).mp hmem
    obtain rfl := hs.chain.eq_of_nullifier hlen hinj htx' htx (congrArg _ hcomm)
    exact hnone send.2 (hs.rebuilt send hsend).1 hnext.tokenType_eq hnext.nonce_lt
      (hp.txType_eq send hsend)

/-- **What a client keeps is enough for it.** -/
theorem Spends.spentOnce (hp : Spends scheme s) (hs : Kept scheme s) (hlen : s.chain.length ≤ MAX_UINT32)
    (hinj : Set.InjOn scheme.generateNullifier {n | n ≤ MAX_UINT32}) : SpentOnce scheme s := by
  refine ⟨fun send hsend comm => hp.spends_iff hs hsend, ?_, ?_, ?_⟩
  · intro send hsend
    rw [((hp.inputs send hsend).map IncompleteCommitment.nullifier).nodup_iff, List.map_map]
    have hstrict := (s.chain.graded_tokenBucket (some send.2.tokenType)).between_strict
      (History.length_tokenBucket_le hs.chain.single (some send.2.tokenType)) 0 send.2.nonce
    refine List.Nodup.map_on (fun x hx y hy heq => ?_)
      ((hstrict.imp fun hlt heq => absurd (congrArg _ heq) (Nat.ne_of_gt hlt)).sublist
        (upToSend_sublist _))
    have hx := ((History.mem_upToSend_below hs.chain.single).mp hx).2.1
    have hy := ((History.mem_upToSend_below hs.chain.single).mp hy).2.1
    exact hs.chain.eq_of_nullifier hlen hinj hx hy heq
  · intro send hsend send' hsend' comm hcomm comm' hcomm' heq
    obtain ⟨tx, htx, hnext, rfl⟩ := (hp.spends_iff hs hsend).mp hcomm
    obtain ⟨tx', htx', hnext', rfl⟩ := (hp.spends_iff hs hsend').mp hcomm'
    obtain rfl := hs.chain.eq_of_nullifier hlen hinj htx htx' heq
    exact hp.eq_of_nextSend hs hsend hsend' hnext hnext'
  · intro m hm fuel hfuel tokenType
    have hgaps : s.chain.GapsBelow DEFAULT_FETCH_BATCH_SIZE := hs.chain.gapless.gapsBelow (by decide)
    obtain ⟨txs, m', htxs, rfl, -⟩ := (getActiveTxs_spec hm hgaps hfuel tokenType none).run rfl
    refine ⟨_, congrArg Prod.fst htxs, fun tx => ?_⟩
    show tx ∈ s.chain.activeTxs tokenType ↔ _
    rw [hs.chain.activeTxs_eq hlen, History.tokenTxs, History.mem_upToSend_below hs.chain.single]
    constructor
    · rintro ⟨-, htx, rfl, hnone⟩
      refine ⟨htx, rfl, (hp.unspent_iff hs hlen hinj htx).mpr fun x hx htoken hlt => ?_⟩
      exact hnone x hx htoken hlt (History.lt_length_of_mem_txs (History.mem_txs.mpr hx))
    · rintro ⟨htx, rfl, hunspent⟩
      refine ⟨History.lt_length_of_mem_txs (History.mem_txs.mpr htx), htx, rfl, fun x hx htoken hlt _ => ?_⟩
      exact (hp.unspent_iff hs hlen hinj htx).mp hunspent x hx htoken hlt

/-- **Every commitment is spent once at most, and what is not spent is active**, in every run of one
client.  Nonces have 32 bits, and neither the commitments nor the nullifiers of the wallet collide. -/
theorem spends_once {poseidon : Poseidon} (circuits : Circuits poseidon) (serialization : Serialization)
    (seedWrapper : SeedWrapper) (accs : ProgramAccounts) (owner : PublicKey)
    (hasCommitment : Bytes → ℕ → Bool)
    (hsep : (seedWrapper.commitmentScheme poseidon hasCommitment).Separates)
    (hinj : Set.InjOn seedWrapper.generateNullifier {n | n ≤ MAX_UINT32}) {events : List ClientEvent}
    (hrun : run (step circuits serialization seedWrapper accs owner) start events = some s)
    (hlen : s.chain.length ≤ MAX_UINT32) :
    SpentOnce (seedWrapper.commitmentScheme poseidon hasCommitment) s := by
  obtain ⟨hs, hp⟩ := spends_of_run hsep hrun hlen
  exact hp.spentOnce hs hlen hinj

lemma injOn_plainNullifier : Set.InjOn plainSeed.generateNullifier {n | n ≤ MAX_UINT32} := by
  intro n hn n' hn' heq
  have hsalt : leBytes 4 n = leBytes 4 n' := by
    rw [← salt_plainNullifier, ← salt_plainNullifier, heq]
  have hread := congrArg ofLeBytes hsalt
  rwa [ofLeBytes_leBytes (Nat.lt_succ_of_le hn), ofLeBytes_leBytes (Nat.lt_succ_of_le hn')] at hread

/-- The merge spends four topups, and the send what is left with the fifth. -/
theorem spends_once_mergeRun : ∃ s, run openStep start mergeRun = some s ∧
    s.sends.map (fun send => (send.2.nonce, send.1.inputCommitments.length)) = [(6, 2), (4, 4)] ∧
    SpentOnce openScheme s := by
  have hsome : ((run openStep start mergeRun).map fun s => (s.chain.length,
      s.sends.map fun send => (send.2.nonce, send.1.inputCommitments.length)))
        = some (7, [(6, 2), (4, 4)]) := by
    decide +kernel
  obtain ⟨s, hrun, hs⟩ := Option.map_eq_some_iff.mp hsome
  obtain ⟨hlength, hsends⟩ := Prod.mk.inj hs
  refine ⟨s, hrun, hsends, ?_⟩
  refine spends_once openCircuits plainSerialization plainSeed plainAccounts
    (ElusivTransaction.bareKey 12) (fun _ _ => true) separates_openScheme injOn_plainNullifier hrun ?_
  rw [hlength]
  decide

end Client

end ElusivSdk
