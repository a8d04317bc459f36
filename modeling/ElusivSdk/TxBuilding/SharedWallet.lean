import ElusivSdk.Library.Transition
import ElusivSdk.TxBuilding.LandedCommitments
import ElusivSdk.TxManagers.ActiveTransactions
import ElusivSdk.TxManagers.Query
import Mathlib.Logic.Function.Basic

/-!
# A wallet with several instances

Several instances use one seed, each with a cache of its own.  An instance fetches, builds from what it has
fetched, and what it has built lands; in between the others do the same.

* `Instance.build` — what an instance makes of its last fetch: a topup, a merge, the topup after a merge, or
  a send.
* `SharedWallet.step` — a call that reads, a fetch, or a landing.  The chain takes every signature once, and
  no send with an input that is spent.
* `SharedWallet.Sound` — no token has more than `SEND_ARITY` unspent commitments, and every instance finds
  all of them with `getActiveTxs`.
* `SharedWallet.InTime` — a transaction lands in time: what it was built from is not too old for it.
* **`Instance.build_spec`** — what is built from a fetch.
-/

namespace ElusivSdk

open Descending InstructionBuilding Program TransactionBuilding Transition

/-- One instance of the SDK. -/
structure Instance where
  manager : TxManager
  /-- The last fetch and its token, until a transaction is built from it. -/
  fetched : Option (TokenType × FetchedParams)
  /-- The merge of the instance is on chain, the topup it was made for is not. -/
  merged : Option MergedTopup

/-- A transaction that is sent, the commitments it spends, and the topup that waits for it. -/
structure Landing where
  tx : ElusivTransaction
  inputs : List IncompleteCommitment
  merged : Option MergedTopup

inductive BuildCall
  /-- `buildTopUpTx` after the fetch. -/
  | topup (manualMerge : Bool) (request : TopupRequest) (fee : ℤ) (signature : ConfirmedSignatureInfo)
      (data : FinalizeData)
  /-- The rest of `buildTopUpTx` after the merge. -/
  | topupMerged (fee : ℤ) (signature : ConfirmedSignatureInfo)
  /-- `buildSendTx` after the fetch. -/
  | send (request : SendRequest) (data : FinalizeData)

/-- Instances by name, and what they have brought onto the chain. -/
structure SharedWallet (ι : Type) where
  chain : History
  instances : ι → Instance
  landed : List Landing

inductive WalletEvent (ι : Type)
  /-- A call that reads. -/
  | query (i : ι) (q : Query)
  /-- The fetch of `buildTopUpTx` or `buildSendTx`. -/
  | fetch (i : ι) (tokenType : TokenType) (answers : Answers)
  /-- The instance builds, and what it has built lands; `pos` is its position among the transactions of its
  nonce. -/
  | land (i : ι) (call : BuildCall) (pos : ℕ)

section Model

variable {poseidon : Poseidon} (circuits : Circuits poseidon) (serialization : Serialization)
  (seedWrapper : SeedWrapper) (accs : ProgramAccounts) (owner : PublicKey)

namespace Instance

/-- The send as it lands, when its JSON can be written. -/
def sendLanding (send : SendTx × Fee) (params : FetchedParams) (data : FinalizeData)
    (merged : Option MergedTopup) : Option Landing := do
  let tx ← (landedSend serialization seedWrapper send data).toOption
  pure { tx := tx, inputs := params.activeCommitments, merged := merged }

/-- The topup as it lands, or the merge that goes before it. -/
def topupLanding (request : TopupRequest) (params : FetchedParams) (fee : ℤ)
    (signature : ConfirmedSignatureInfo) (data : FinalizeData) : BuiltTopup → Option Landing
  | .topup storeTx => some { tx := storeTx.landed fee signature, inputs := [], merged := none }
  | .merge send => sendLanding serialization seedWrapper send params data
      (some ⟨request, params, getTotalFeeAmount send.2⟩)

/-- What the instance sends; `none` when the call throws, or when nothing was fetched for it. -/
def build (x : Instance) : BuildCall → Option Landing
  | .topup manualMerge request fee signature data => do
      let (tokenType, params) ← x.fetched
      guard (request.tokenType = tokenType)
      let built ← (buildTopupOrMerge circuits serialization seedWrapper accs owner manualMerge request
        params).toOption
      topupLanding serialization seedWrapper request params fee signature data built
  | .topupMerged fee signature => do
      let merged ← x.merged
      let storeTx ← (buildTopup serialization seedWrapper accs poseidon merged.request merged.params
        (some merged.mergeFee)).toOption
      pure { tx := storeTx.landed fee signature, inputs := [], merged := none }
  | .send request data => do
      let (tokenType, params) ← x.fetched
      guard (request.tokenType = tokenType)
      let send ← (buildSend circuits serialization seedWrapper request params).toOption
      sendLanding serialization seedWrapper send params data none

end Instance

namespace SharedWallet

variable {ι : Type}

def start : SharedWallet ι :=
  { chain := .ofList [] History.nil_not_confirmed
    instances := fun _ => { manager := .new, fetched := none, merged := none }
    landed := [] }

/-- The commitment is an input of a landed send. -/
def spent (s : SharedWallet ι) (comm : IncompleteCommitment) : Bool :=
  s.landed.any fun landing => comm ∈ landing.inputs

/-- The chain takes a transaction under a new signature, and no input twice. -/
def Accepts (s : SharedWallet ι) (landing : Landing) : Prop :=
  (∀ tx ∈ s.chain.txs, tx.signature ≠ landing.tx.signature) ∧
    ∀ comm ∈ landing.inputs, s.spent comm = false

instance (s : SharedWallet ι) (landing : Landing) : Decidable (s.Accepts landing) :=
  inferInstanceAs (Decidable (_ ∧ _))

variable [DecidableEq ι]

def setInstance (s : SharedWallet ι) (i : ι) (x : Instance) : SharedWallet ι :=
  { s with instances := Function.update s.instances i x }

/-- The landing of an instance. -/
def land (s : SharedWallet ι) (i : ι) (landing : Landing) (pos : ℕ) : Option (SharedWallet ι) :=
  if s.Accepts landing then
    (s.chain.grow (.land landing.tx pos)).map fun chain =>
      { chain := chain
        instances := Function.update s.instances i
          { manager := (s.instances i).manager, fetched := none, merged := landing.merged }
        landed := landing :: s.landed }
  else none

def step (s : SharedWallet ι) : WalletEvent ι → Option (SharedWallet ι)
  | .query i q =>
      let x := s.instances i
      some (s.setInstance i
        { x with manager := (exec (q.alone s.chain.fetcher s.chain.enoughFuel) x.manager).2 })
  | .fetch i tokenType answers =>
      match exec (fetchTxRemoteParams seedWrapper poseidon s.chain.fetcher s.chain.enoughFuel answers
        tokenType) (s.instances i).manager with
      | (.error _, m) => some (s.setInstance i { manager := m, fetched := none, merged := none })
      | (.ok params, m) =>
          some (s.setInstance i { manager := m, fetched := some (tokenType, params), merged := none })
  | .land i call pos =>
      let x := s.instances i
      match x.build circuits serialization seedWrapper accs owner call with
      | none => some (s.setInstance i { x with fetched := none, merged := none })
      | some landing => s.land i landing pos

end SharedWallet

end Model

/-! ## What is built from a fetch -/

/-- Parameters of some fetch: the commitments are those of transactions of the token that were on chain. -/
structure FetchedParams.ReadFrom (params : FetchedParams) (scheme : CommitmentScheme) (h : History)
    (tokenType : TokenType) : Prop where
  nonce_nonneg : 0 ≤ params.lastNonce + 1
  nonce_le : params.lastNonce + 1 ≤ h.length
  commitments : ∀ comm ∈ params.activeCommitments, ∃ tx ∈ h.txs, tx.tokenType = tokenType ∧
    scheme.commitmentOf tx = comm ∧ (tx.nonce : ℤ) ≤ params.lastNonce

/-- What an instance keeps while the chain grows. -/
structure Instance.Ok (scheme : CommitmentScheme) (h : History) (x : Instance) : Prop where
  coherent : Coherent h x.manager
  fetched : ∀ tokenType params, x.fetched = some (tokenType, params) →
    params.ReadFrom scheme h tokenType
  merged : ∀ merged, x.merged = some merged →
    0 ≤ merged.params.lastNonce + 1 ∧ merged.params.lastNonce + 2 ≤ h.length

/-- What is known of a transaction that an instance has built. -/
structure Landing.Built (scheme : CommitmentScheme) (h : History) (landing : Landing) : Prop where
  nonce_le : landing.tx.nonce ≤ h.length
  tells : scheme.Tells landing.tx
  described : ∃ metadata, scheme.Describes metadata landing.tx
  tokenType_eq : (scheme.commitmentOf landing.tx).tokenType = landing.tx.tokenType
  signed : landing.tx.signature.isSome = true
  topup : landing.tx.txType = .TOPUP → landing.inputs = []
  send : landing.tx.txType = .SEND → landing.inputs ≠ [] ∧ ∀ comm ∈ landing.inputs, ∃ tx ∈ h.txs,
    tx.tokenType = landing.tx.tokenType ∧ scheme.commitmentOf tx = comm ∧ tx.nonce < landing.tx.nonce
  merged : ∀ merged, landing.merged = some merged →
    merged.params.lastNonce + 1 = landing.tx.nonce

namespace Instance

variable {poseidon : Poseidon} {circuits : Circuits poseidon} {serialization : Serialization}
  {seedWrapper : SeedWrapper} {accs : ProgramAccounts} {owner : PublicKey}
  (hasCommitment : Bytes → ℕ → Bool) {h : History}

lemma topup_built {request : TopupRequest} {params : FetchedParams} {mergeFee : Option ℤ}
    {storeTx : StoreTx}
    (hbuild : buildTopup serialization seedWrapper accs poseidon request params mergeFee = .ok storeTx)
    (hnonce : (if mergeFee.isSome then params.lastNonce + 1 else params.lastNonce) + 1 ≤ (h.length : ℤ))
    (fee : ℤ) (signature : ConfirmedSignatureInfo) :
    Landing.Built (seedWrapper.commitmentScheme poseidon hasCommitment) h
      { tx := storeTx.landed fee signature, inputs := [], merged := none } := by
  obtain ⟨hbuilt, htells, hdescribed⟩ := buildTopup_landed hasCommitment hbuild fee signature
  refine ⟨?_, htells, hdescribed, rfl, rfl, fun _ => rfl, fun hsend => (nomatch hsend),
    fun _ hm => nomatch hm⟩
  show storeTx.nonce ≤ h.length
  rw [hbuilt.nonce_eq]
  omega

lemma sendLanding_built {request : SendRequest} {params : FetchedParams} {send : SendTx × Fee}
    (hread : params.ReadFrom (seedWrapper.commitmentScheme poseidon hasCommitment) h request.tokenType)
    (hsend : buildSend circuits serialization seedWrapper request params = .ok send)
    {data : FinalizeData} {merged : Option MergedTopup}
    (hmerged : ∀ m, merged = some m → m.params = params) {landing : Landing}
    (hlanding : sendLanding serialization seedWrapper send params data merged = some landing) :
    landing.Built (seedWrapper.commitmentScheme poseidon hasCommitment) h := by
  obtain ⟨tx, htx, hlanding⟩ := Option.bind_eq_some_iff.mp hlanding
  obtain rfl := Option.some.inj hlanding
  rw [toOption_eq_some] at htx
  obtain ⟨hbuilt, hlanded, hsignature, hcomm, htells, hdescribed⟩ :=
    landedSend_eq_ok hasCommitment hsend htx
  have hnonce : (tx.nonce : ℤ) = params.lastNonce + 1 := by
    rw [hlanded.nonce_eq, hbuilt.nonce_eq]
    exact Int.toNat_of_nonneg hread.nonce_nonneg
  have htoken : tx.tokenType = request.tokenType := hlanded.tokenType_eq.trans hbuilt.tokenType_eq
  refine ⟨?_, htells, hdescribed, ?_, ?_, fun htype => ?_, fun _ => ⟨hbuilt.active_ne_nil, ?_⟩, ?_⟩
  · have hle := hread.nonce_le
    show tx.nonce ≤ h.length
    omega
  · rw [hcomm, hbuilt.commitment_eq, hlanded.tokenType_eq]
    rfl
  · rw [hsignature]
    rfl
  · rw [hlanded.txType_eq] at htype
    nomatch htype
  · intro comm hmem
    obtain ⟨input, hinput, hinputToken, hinputComm, hle⟩ := hread.commitments comm hmem
    refine ⟨input, hinput, hinputToken.trans htoken.symm, hinputComm, ?_⟩
    show input.nonce < tx.nonce
    omega
  · intro m hm
    rw [hmerged m hm]
    exact hnonce.symm

/-- **What an instance builds**, whatever others have done since its fetch. -/
theorem build_spec {x : Instance} (hx : x.Ok (seedWrapper.commitmentScheme poseidon hasCommitment) h)
    {call : BuildCall} {landing : Landing}
    (hbuild : x.build circuits serialization seedWrapper accs owner call = some landing) :
    landing.Built (seedWrapper.commitmentScheme poseidon hasCommitment) h := by
  cases call with
  | topup manualMerge request fee signature data =>
      obtain ⟨⟨tokenType, params⟩, hfetched, hbuild⟩ := Option.bind_eq_some_iff.mp hbuild
      obtain ⟨_, htoken, hbuild⟩ := Option.bind_eq_some_iff.mp hbuild
      obtain ⟨built, hbuilt, hlanding⟩ := Option.bind_eq_some_iff.mp hbuild
      rw [toOption_eq_some] at hbuilt
      obtain rfl := (Option.guard_eq_some' _).mp htoken
      have hread := hx.fetched _ _ hfetched
      cases built with
      | topup storeTx =>
          obtain rfl := Option.some.inj hlanding
          exact topup_built hasCommitment (buildTopupOrMerge_topup hbuilt).2 hread.nonce_le fee signature
      | merge send =>
          refine sendLanding_built hasCommitment hread (buildTopupOrMerge_merge hbuilt) ?_ hlanding
          intro m hm
          rw [← Option.some.inj hm]
  | topupMerged fee signature =>
      obtain ⟨merged, hmerged, hbuild⟩ := Option.bind_eq_some_iff.mp hbuild
      obtain ⟨storeTx, hstore, hlanding⟩ := Option.bind_eq_some_iff.mp hbuild
      rw [toOption_eq_some] at hstore
      obtain rfl := Option.some.inj hlanding
      refine topup_built hasCommitment hstore ?_ fee signature
      have hle := (hx.merged merged hmerged).2
      show merged.params.lastNonce + 1 + 1 ≤ _
      omega
  | send request data =>
      obtain ⟨⟨tokenType, params⟩, hfetched, hbuild⟩ := Option.bind_eq_some_iff.mp hbuild
      obtain ⟨_, htoken, hbuild⟩ := Option.bind_eq_some_iff.mp hbuild
      obtain ⟨send, hsend, hlanding⟩ := Option.bind_eq_some_iff.mp hbuild
      rw [toOption_eq_some] at hsend
      obtain rfl := (Option.guard_eq_some' _).mp htoken
      refine sendLanding_built hasCommitment (hx.fetched _ _ hfetched) hsend ?_ hlanding
      exact fun _ hmerged => nomatch hmerged

end Instance

/-! ## What a shared wallet should keep -/

namespace SharedWallet

variable {ι : Type} (scheme : CommitmentScheme) (s : SharedWallet ι)

/-- The transactions of a token whose commitment is not an input of a landed send. -/
def unspent (tokenType : TokenType) : List ElusivTransaction :=
  s.chain.txs.filter fun tx => tx.hasToken (some tokenType) && !s.spent (scheme.commitmentOf tx)

/-- No token has more than `SEND_ARITY` unspent commitments, and none of them is lost to `getActiveTxs`. -/
structure Sound : Prop where
  few : ∀ tokenType, (s.unspent scheme tokenType).length ≤ SEND_ARITY
  found : ∀ tokenType, ∀ tx ∈ s.unspent scheme tokenType, ∀ i fuel, s.chain.enoughFuel ≤ fuel →
    ∃ txs m, exec (getActiveTxs s.chain.fetcher fuel tokenType none) (s.instances i).manager
      = (.ok txs, m) ∧ tx ∈ txs

/-- A transaction lands in time. -/
structure InTime (landing : Landing) : Prop where
  /-- No instance has cached the nonce, which it would not fetch again. -/
  uncached : ∀ i, (s.instances i).manager.bucket landing.tx.nonce = []
  /-- The commitment is not on chain under the same nonce. -/
  hash_ne : ∀ tx ∈ s.chain.txs, tx.nonce = landing.tx.nonce →
    tx.commitmentHash ≠ landing.tx.commitmentHash
  /-- There is room for a topup, and no send is on a larger nonce. -/
  topup : landing.tx.txType = .TOPUP →
    (s.unspent scheme landing.tx.tokenType).length < SEND_ARITY ∧
    ∀ tx ∈ s.chain.txs, tx.tokenType = landing.tx.tokenType → tx.txType = .SEND →
      tx.nonce ≤ landing.tx.nonce
  /-- A send spends everything, but for topups on its own or a larger nonce. -/
  send : landing.tx.txType = .SEND → ∀ tx ∈ s.unspent scheme landing.tx.tokenType,
    scheme.commitmentOf tx ∈ landing.inputs ∨ tx.txType = .TOPUP ∧ landing.tx.nonce ≤ tx.nonce

instance [Fintype ι] (landing : Landing) : Decidable (s.InTime scheme landing) :=
  decidable_of_iff (_ ∧ _ ∧ _ ∧ _)
    ⟨fun h => ⟨h.1, h.2.1, h.2.2.1, h.2.2.2⟩, fun h => ⟨h.uncached, h.hash_ne, h.topup, h.send⟩⟩

end SharedWallet

end ElusivSdk
