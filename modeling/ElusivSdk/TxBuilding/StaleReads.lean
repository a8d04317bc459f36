import ElusivSdk.TxBuilding.SharedWallet
import ElusivSdk.TxBuilding.ValueConservation

/-!
# Landings that come too late

An instance counts the commitments when it fetches, and its topup may land when there is no room any more;
then a commitment is lost to `getActiveTxs`.  As long as every transaction lands in time, none is.

* `SharedWallet.Kept` — what a landing in time keeps: a commitment is spent when a send of its token is on a
  larger nonce, and only then.
* `Kept.unspent_eq` — so the unspent commitments are those without a later send.
* **`SharedWallet.sound_of_timely`** — in every run whose landings are all in time, every instance finds every unspent
  commitment, and there are at most `SEND_ARITY` of a token.
* **`SharedWallet.stale_unsound`** — two topups that are built from the same three commitments.
-/

namespace ElusivSdk

open Descending Program Transition

/-- The hash of a commitment tells its nonce. -/
lemma CommitmentScheme.Separates.nonce_eq {scheme : CommitmentScheme} (hsep : scheme.Separates)
    {x y : ElusivTransaction} (hx : ∃ metadata, scheme.Describes metadata x)
    (hy : ∃ metadata, scheme.Describes metadata y)
    (h : scheme.getCommitmentHash (scheme.commitmentOf x)
      = scheme.getCommitmentHash (scheme.commitmentOf y)) : x.nonce = y.nonce := by
  obtain ⟨metadata, hnonce, hcomm⟩ := hx
  obtain ⟨metadata', hnonce', hcomm'⟩ := hy
  have hsame : metadata = metadata' := by
    apply hsep
    show scheme.getCommitmentHash (scheme.commFromMetadata metadata)
      = scheme.getCommitmentHash (scheme.commFromMetadata metadata')
    rw [hcomm, hcomm', h]
  rw [← hnonce, ← hnonce', hsame]

namespace SharedWallet

variable {ι : Type} {scheme : CommitmentScheme} {s : SharedWallet ι}

/-- What is kept while every transaction lands in time. -/
structure Kept (scheme : CommitmentScheme) (s : SharedWallet ι) : Prop where
  gapless : s.chain.Gapless
  distinct : s.chain.DistinctHashes
  tells : ∀ tx ∈ s.chain.txs, scheme.Tells tx
  described : ∀ tx ∈ s.chain.txs, ∃ metadata, scheme.Describes metadata tx
  tokenType_eq : ∀ tx ∈ s.chain.txs, (scheme.commitmentOf tx).tokenType = tx.tokenType
  signed : ∀ tx ∈ s.chain.txs, tx.signature.isSome = true
  signatures : ∀ x ∈ s.chain.txs, ∀ y ∈ s.chain.txs, x.signature = y.signature → x = y
  instances : ∀ i, (s.instances i).Ok scheme s.chain
  /-- An input is on chain, below the send that spends it. -/
  inputs : ∀ landing ∈ s.landed, ∀ comm ∈ landing.inputs, landing.tx ∈ s.chain.txs ∧
    landing.tx.txType = .SEND ∧ ∃ tx ∈ s.chain.txs, tx.tokenType = landing.tx.tokenType ∧
      scheme.commitmentOf tx = comm ∧ tx.nonce < landing.tx.nonce
  /-- A send has spent everything below it. -/
  spends : ∀ x ∈ s.chain.txs, ∀ y ∈ s.chain.txs, y.txType = .SEND → y.tokenType = x.tokenType →
    x.nonce < y.nonce → s.spent (scheme.commitmentOf x) = true
  oneSend : ∀ x ∈ s.chain.txs, ∀ y ∈ s.chain.txs, x.txType = .SEND → y.txType = .SEND →
    x.tokenType = y.tokenType → x.nonce = y.nonce → x = y
  few : ∀ tokenType, (s.unspent scheme tokenType).length ≤ SEND_ARITY

lemma spent_eq_true {comm : IncompleteCommitment} :
    s.spent comm = true ↔ ∃ landing ∈ s.landed, comm ∈ landing.inputs := by
  rw [spent, List.any_eq_true]
  simp only [decide_eq_true_eq]

lemma mem_unspent {tokenType : TokenType} {tx : ElusivTransaction} :
    tx ∈ s.unspent scheme tokenType ↔
      tx ∈ s.chain.txs ∧ tx.tokenType = tokenType ∧ s.spent (scheme.commitmentOf tx) = false := by
  rw [unspent, List.mem_filter, Bool.and_eq_true, Bool.not_eq_true']
  exact Iff.and Iff.rfl (Iff.and beq_iff_eq Iff.rfl)

namespace Kept

section Reading

variable (hs : Kept scheme s)
include hs

/-- The transactions of a token, as they are cached. -/
lemma tokenTxs_eq (tokenType : TokenType) :
    s.chain.tokenTxs tokenType = s.chain.txs.filter fun tx => tx.hasToken (some tokenType) := by
  rw [History.tokenTxs, below, ← s.chain.filter_between_bucket, History.txs]
  exact congrArg _ (between_congr fun n _ _ => hs.distinct.bucket_eq n)

lemma mem_tokenTxs {tokenType : TokenType} {tx : ElusivTransaction} :
    tx ∈ s.chain.tokenTxs tokenType ↔ tx ∈ s.chain.txs ∧ tx.tokenType = tokenType := by
  rw [hs.tokenTxs_eq, List.mem_filter]
  exact Iff.and Iff.rfl beq_iff_eq

lemma orderly (tokenType : TokenType) : Orderly (s.chain.tokenTxs tokenType) := by
  constructor
  · intro x hx y hy hxs hys hnonce
    obtain ⟨hx, hxt⟩ := hs.mem_tokenTxs.mp hx
    obtain ⟨hy, hyt⟩ := hs.mem_tokenTxs.mp hy
    exact hs.oneSend x hx y hy hxs hys (hxt.trans hyt.symm) hnonce
  · intro x hx y hy _ hsig
    exact hs.signatures x (hs.mem_tokenTxs.mp hx).1 y (hs.mem_tokenTxs.mp hy).1 hsig

lemma nodup_tokenTxs (tokenType : TokenType) : (s.chain.tokenTxs tokenType).Nodup := by
  rw [hs.tokenTxs_eq]
  exact (hs.distinct.nodup _).filter _

lemma activeTxs_eq (hlen : s.chain.length ≤ MAX_UINT32) (tokenType : TokenType) :
    s.chain.activeTxs tokenType = selectActiveTxs
      (takeGroups ElusivTransaction.nonce SEND_ARITY (s.chain.tokenTxs tokenType)) := by
  have htop : s.chain.top none = s.chain.length := Nat.min_self _
  rw [History.activeTxs, hs.gapless.fetchTxs_eq hlen, htop, ← History.tokenTxs]

variable (hsep : scheme.Separates)
include hsep

/-- A commitment is spent by a later send of its token only. -/
lemma exists_later {x : ElusivTransaction} (hx : x ∈ s.chain.txs)
    (hspent : s.spent (scheme.commitmentOf x) = true) :
    ∃ y ∈ s.chain.txs, y.txType = .SEND ∧ y.tokenType = x.tokenType ∧ x.nonce < y.nonce := by
  obtain ⟨landing, hlanding, hcomm⟩ := spent_eq_true.mp hspent
  obtain ⟨hmem, hsend, input, hinput, htoken, heq, hlt⟩ := hs.inputs landing hlanding _ hcomm
  refine ⟨landing.tx, hmem, hsend, ?_, ?_⟩
  · rw [← htoken, ← hs.tokenType_eq x hx, ← heq, hs.tokenType_eq input hinput]
  · have hnonce := hsep.nonce_eq (hs.described x hx) (hs.described input hinput) (by rw [heq])
    rw [hnonce]
    exact hlt

/-- **The unspent commitments are those that no later send of the token has spent.** -/
lemma unspent_eq (tokenType : TokenType) :
    s.unspent scheme tokenType = ElusivSdk.unspent (s.chain.tokenTxs tokenType) := by
  have hmem := @mem_tokenTxs ι scheme s hs tokenType
  rw [SharedWallet.unspent, ElusivSdk.unspent, hs.tokenTxs_eq, List.filter_filter]
  refine List.filter_congr fun x hx => ?_
  rw [Bool.and_comm]
  cases htoken : x.hasToken (some tokenType) with
  | false => rw [Bool.and_false, Bool.and_false]
  | true =>
      have htoken' : x.tokenType = tokenType := eq_of_beq htoken
      rw [Bool.and_true, Bool.and_true, ← hs.tokenTxs_eq]
      cases hspent : s.spent (scheme.commitmentOf x) with
      | false =>
          refine (decide_eq_true fun y hy hsend => ?_).symm
          obtain ⟨hy, hyt⟩ := hmem.mp hy
          by_contra hlt
          have hspends := hs.spends x hx y hy hsend (hyt.trans htoken'.symm) (Nat.lt_of_not_le hlt)
          rw [hspent] at hspends
          exact Bool.false_ne_true hspends
      | true =>
          refine (decide_eq_false fun hno => ?_).symm
          obtain ⟨y, hy, hsend, hyt, hlt⟩ := hs.exists_later hsep hx hspent
          have hle := hno y (hmem.mpr ⟨hy, hyt.trans htoken'⟩) hsend
          exact absurd hlt (Nat.not_lt.mpr hle)

/-- **What is unspent is found by every instance.** -/
theorem sound (hlen : s.chain.length ≤ MAX_UINT32) : s.Sound scheme := by
  refine ⟨hs.few, ?_⟩
  intro tokenType tx htx i fuel hfuel
  obtain ⟨txs, m, htxs, rfl, -⟩ := (getActiveTxs_spec (hs.instances i).coherent
    (hs.gapless.gapsBelow (by decide)) hfuel tokenType none).run rfl
  refine ⟨_, m, htxs, ?_⟩
  show tx ∈ s.chain.activeTxs tokenType
  have hdesc := (s.chain.graded_tokenBucket (some tokenType)).between_pairwise 0 s.chain.length
  rw [hs.activeTxs_eq hlen, mem_select_takeGroups (hs.orderly tokenType) hdesc]
  · rw [← hs.unspent_eq hsep]
    exact htx
  · rw [← hs.unspent_eq hsep]
    exact hs.few tokenType

/-- The commitments that a fetch returns have different hashes. -/
lemma nodup_activeTxs (hlen : s.chain.length ≤ MAX_UINT32) (tokenType : TokenType) :
    ((s.chain.activeTxs tokenType).map ElusivTransaction.commitmentHash).Nodup := by
  have hsub : (takeGroups ElusivTransaction.nonce SEND_ARITY (s.chain.tokenTxs tokenType)).Sublist
      (s.chain.tokenTxs tokenType) := takeGroups_sublist _ _ _
  have htxs : ∀ x ∈ s.chain.activeTxs tokenType, x ∈ s.chain.txs := by
    intro x hx
    rw [hs.activeTxs_eq hlen] at hx
    exact (hs.mem_tokenTxs.mp (hsub.subset (selectActiveTxs_subset _ hx))).1
  have hnodup : (s.chain.activeTxs tokenType).Nodup := by
    rw [hs.activeTxs_eq hlen]
    refine nodup_selectActiveTxs ((hs.nodup_tokenTxs tokenType).sublist hsub) fun x hx => ?_
    exact hs.signed x (hs.mem_tokenTxs.mp (hsub.subset hx)).1
  refine hnodup.map_on fun x hx y hy heq => ?_
  have hx := htxs x hx
  have hy := htxs y hy
  have hnonce : x.nonce = y.nonce := by
    refine hsep.nonce_eq (hs.described x hx) (hs.described y hy) ?_
    rw [(hs.tells x hx).hash_eq, (hs.tells y hy).hash_eq, heq]
  have hhashes : ((s.chain.txsAt y.nonce).map ElusivTransaction.commitmentHash).Nodup :=
    List.pairwise_map.mpr (hs.distinct y.nonce)
  refine List.inj_on_of_nodup_map hhashes ?_ (History.mem_txs.mp hy) heq
  rw [← hnonce]
  exact History.mem_txs.mp hx

end Reading

/-! ### One step -/

lemma start_kept : Kept scheme (start : SharedWallet ι) := by
  constructor
  case gapless => exact fun n hn => absurd hn (Nat.not_lt_zero n)
  case distinct => exact fun n => List.Pairwise.nil
  case instances => exact fun i => ⟨coherent_new _, fun _ _ hf => (nomatch hf), fun _ hm => nomatch hm⟩
  case few =>
    intro tokenType
    have hnone : (start : SharedWallet ι).chain.txs = [] := rfl
    rw [unspent, hnone]
    exact Nat.zero_le _
  -- nothing is on chain, and nothing has landed
  all_goals
    intro x hx
    exact absurd hx List.not_mem_nil

variable {hasCommitment : Bytes → ℕ → Bool}

lemma setInstance [DecidableEq ι] (hs : Kept scheme s) {i : ι} {x : Instance}
    (hx : x.Ok scheme s.chain) : Kept scheme (s.setInstance i x) := by
  refine { hs with instances := fun j => ?_ }
  by_cases hj : j = i
  · subst hj
    show (Function.update s.instances j x j).Ok scheme s.chain
    rw [Function.update_self]
    exact hx
  · show (Function.update s.instances i x j).Ok scheme s.chain
    rw [Function.update_of_ne hj]
    exact hs.instances j

end Kept

/-- A transaction that lands leaves what an instance has fetched. -/
lemma instance_land {h : History} {x : Instance} (hx : x.Ok scheme h) {tx : ElusivTransaction}
    {pos : ℕ} {hstatus : tx.transactionStatus ≠ some .CONFIRMED}
    (huncached : x.manager.bucket tx.nonce = []) : x.Ok scheme (h.land tx pos hstatus) := by
  have hlength := h.length_le_land tx pos hstatus
  have hgrow : h.grow (.land tx pos) = some (h.land tx pos hstatus) := dif_pos hstatus
  refine ⟨hx.coherent.grow hgrow huncached, ?_, ?_⟩
  · intro tokenType params hfetched
    have hread := hx.fetched tokenType params hfetched
    refine ⟨hread.nonce_nonneg, ?_, fun comm hcomm => ?_⟩
    · have hle := hread.nonce_le
      omega
    · obtain ⟨input, hinput, hrest⟩ := hread.commitments comm hcomm
      exact ⟨input, History.mem_txs_land.mpr (Or.inr hinput), hrest⟩
  · intro merged hmerged
    obtain ⟨hpos, hle⟩ := hx.merged merged hmerged
    exact ⟨hpos, by omega⟩

lemma spent_land {s' : SharedWallet ι} {landing : Landing} (hlanded : s'.landed = landing :: s.landed)
    (comm : IncompleteCommitment) :
    s'.spent comm = (decide (comm ∈ landing.inputs) || s.spent comm) := by
  rw [spent, hlanded]
  rfl

section Landing

variable {landing : Landing} (hs : Kept scheme s) (hb : landing.Built scheme s.chain)
  (ht : s.InTime scheme landing)
include hs hb ht

/-- A send that lands in time is the latest send of its token. -/
lemma send_lt (hsep : scheme.Separates) (htype : landing.tx.txType = .SEND) {y : ElusivTransaction} (hy : y ∈ s.chain.txs)
    (hsend : y.txType = .SEND) (htoken : y.tokenType = landing.tx.tokenType) :
    y.nonce < landing.tx.nonce := by
  -- by induction on the distance to the newest nonce: a spent send has a later one
  have hind : ∀ k, ∀ y ∈ s.chain.txs, y.txType = .SEND → y.tokenType = landing.tx.tokenType →
      s.chain.length ≤ y.nonce + k → y.nonce < landing.tx.nonce := by
    intro k
    induction k with
    | zero =>
        intro y hy _ _ hle
        exact absurd (History.lt_length_of_mem_txs hy) (Nat.not_lt.mpr hle)
    | succ k ih =>
        intro y hy hsend htoken hle
        cases hspent : s.spent (scheme.commitmentOf y) with
        | true =>
            obtain ⟨z, hz, hzsend, hztoken, hlt⟩ := hs.exists_later hsep hy hspent
            exact Nat.lt_trans hlt (ih z hz hzsend (hztoken.trans htoken) (by omega))
        | false =>
            rcases ht.send htype y (mem_unspent.mpr ⟨hy, htoken, hspent⟩) with hinput | ⟨htopup, -⟩
            · obtain ⟨input, hinput, -, heq, hlt⟩ := (hb.send htype).2 _ hinput
              rw [hsep.nonce_eq (hs.described y hy) (hs.described input hinput) (by rw [heq])]
              exact hlt
            · rw [hsend] at htopup
              nomatch htopup
  exact hind s.chain.length y hy hsend htoken (Nat.le_add_left _ _)

variable {pos : ℕ} {hstatus : landing.tx.transactionStatus ≠ some .CONFIRMED} {s' : SharedWallet ι}
  (hchain : s'.chain = s.chain.land landing.tx pos hstatus) (hlanded : s'.landed = landing :: s.landed)

include hchain hlanded

/-- There is room for what lands. -/
lemma few_land (ha : s.Accepts landing) (tokenType : TokenType) :
    (s'.unspent scheme tokenType).length ≤ SEND_ARITY := by
  have hfew := hs.few tokenType
  have hperm : s'.chain.txs.Perm (landing.tx :: s.chain.txs) := by
    rw [hchain]
    exact History.txs_land_perm
  -- what was unspent and is no input stays unspent
  have hold : (s.chain.txs.filter fun tx => tx.hasToken (some tokenType) &&
      !s'.spent (scheme.commitmentOf tx)) = (s.unspent scheme tokenType).filter fun tx =>
        !decide (scheme.commitmentOf tx ∈ landing.inputs) := by
    rw [unspent, List.filter_filter]
    refine List.filter_congr fun x _ => ?_
    rw [spent_land hlanded, Bool.not_or, Bool.and_left_comm]
  have hcons : ∀ p : ElusivTransaction → Bool,
      ((landing.tx :: s.chain.txs).filter p).length ≤ (s.chain.txs.filter p).length + 1 := by
    intro p
    rw [List.filter_cons]
    split_ifs
    · exact Nat.le_refl _
    · exact Nat.le_succ _
  rw [unspent, (hperm.filter _).length_eq]
  by_cases htoken : landing.tx.tokenType = tokenType
  · subst htoken
    have hlt : ((s.unspent scheme landing.tx.tokenType).filter fun tx =>
        !decide (scheme.commitmentOf tx ∈ landing.inputs)).length < SEND_ARITY := by
      cases htype : landing.tx.txType with
      | TOPUP => exact Nat.lt_of_le_of_lt (List.length_filter_le _ _) (ht.topup htype).1
      | SEND =>
          -- one of the inputs was unspent
          obtain ⟨hne, hinputs⟩ := hb.send htype
          obtain ⟨comm, hcomm⟩ := List.exists_mem_of_ne_nil _ hne
          obtain ⟨input, hinput, htoken, rfl, -⟩ := hinputs comm hcomm
          have hunspent := mem_unspent.mpr ⟨hinput, htoken, ha.2 _ hcomm⟩
          refine Nat.lt_of_lt_of_le (List.length_filter_lt_length_iff_exists.mpr ?_) hfew
          exact ⟨input, hunspent, by simp [hcomm]⟩
    refine Nat.le_trans (hcons _) ?_
    rw [hold]
    exact hlt
  · have hskip : landing.tx.hasToken (some tokenType) = false := beq_eq_false_iff_ne.mpr htoken
    rw [List.filter_cons_of_neg (by simp [hskip]), hold]
    exact Nat.le_trans (List.length_filter_le _ _) hfew

omit hs hb ht hlanded in
lemma mem_txs_landed {x : ElusivTransaction} :
    x ∈ s'.chain.txs ↔ x = landing.tx ∨ x ∈ s.chain.txs := by
  rw [hchain]
  exact History.mem_txs_land

omit ht in
/-- The inputs of what lands are on chain below it. -/
lemma inputs_land : ∀ landing' ∈ s'.landed, ∀ comm ∈ landing'.inputs, landing'.tx ∈ s'.chain.txs ∧
    landing'.tx.txType = .SEND ∧ ∃ tx ∈ s'.chain.txs, tx.tokenType = landing'.tx.tokenType ∧
      scheme.commitmentOf tx = comm ∧ tx.nonce < landing'.tx.nonce := by
  intro landing' hlanding comm hcomm
  rw [hlanded] at hlanding
  rcases List.mem_cons.mp hlanding with rfl | hold
  · cases htype : landing'.tx.txType with
    | TOPUP =>
        rw [hb.topup htype] at hcomm
        exact absurd hcomm List.not_mem_nil
    | SEND =>
        obtain ⟨input, hinput, hrest⟩ := (hb.send htype).2 comm hcomm
        exact ⟨(mem_txs_landed hchain).mpr (Or.inl rfl), rfl, input,
          (mem_txs_landed hchain).mpr (Or.inr hinput), hrest⟩
  · obtain ⟨htx, hsend, input, hinput, hrest⟩ := hs.inputs landing' hold comm hcomm
    exact ⟨(mem_txs_landed hchain).mpr (Or.inr htx), hsend, input,
      (mem_txs_landed hchain).mpr (Or.inr hinput), hrest⟩

/-- Below a send everything of its token is spent, the new one included. -/
lemma spends_land (hsep : scheme.Separates) : ∀ x ∈ s'.chain.txs, ∀ y ∈ s'.chain.txs,
    y.txType = .SEND → y.tokenType = x.tokenType → x.nonce < y.nonce →
      s'.spent (scheme.commitmentOf x) = true := by
  intro x hx y hy hsend htoken hlt
  rw [spent_land hlanded, Bool.or_eq_true, decide_eq_true_eq]
  rcases (mem_txs_landed hchain).mp hy with rfl | hy
  · rcases (mem_txs_landed hchain).mp hx with rfl | hx
    · exact absurd hlt (lt_irrefl _)
    · cases hspent : s.spent (scheme.commitmentOf x) with
      | true => exact Or.inr rfl
      | false =>
          rcases ht.send hsend x (mem_unspent.mpr ⟨hx, htoken.symm, hspent⟩) with hinput | ⟨-, hle⟩
          · exact Or.inl hinput
          · exact absurd hlt (Nat.not_lt.mpr hle)
  · rcases (mem_txs_landed hchain).mp hx with rfl | hx
    · -- nothing lands below a send of its token
      have hle : y.nonce ≤ landing.tx.nonce := by
        cases htype : landing.tx.txType with
        | TOPUP => exact (ht.topup htype).2 y hy htoken hsend
        | SEND => exact Nat.le_of_lt (send_lt hs hb ht hsep htype hy hsend htoken)
      exact absurd hlt (Nat.not_lt.mpr hle)
    · exact Or.inr (hs.spends x hx y hy hsend htoken hlt)

omit hlanded in
/-- A send that lands has a nonce of its own among the sends of its token. -/
lemma oneSend_land (hsep : scheme.Separates) : ∀ x ∈ s'.chain.txs, ∀ y ∈ s'.chain.txs,
    x.txType = .SEND → y.txType = .SEND → x.tokenType = y.tokenType → x.nonce = y.nonce → x = y := by
  intro x hx y hy hxs hys htoken hnonce
  rcases (mem_txs_landed hchain).mp hx with rfl | hx
  · rcases (mem_txs_landed hchain).mp hy with rfl | hy
    · rfl
    · exact absurd hnonce.symm (Nat.ne_of_lt (send_lt hs hb ht hsep hxs hy hys htoken.symm))
  · rcases (mem_txs_landed hchain).mp hy with rfl | hy
    · exact absurd hnonce (Nat.ne_of_lt (send_lt hs hb ht hsep hys hx hxs htoken))
    · exact hs.oneSend x hx y hy hxs hys htoken hnonce

/-- **A landing in time keeps it.** -/
theorem kept_land [DecidableEq ι] (hsep : scheme.Separates) (ha : s.Accepts landing) {i : ι}
    (hinstances : s'.instances = Function.update s.instances i
      { manager := (s.instances i).manager, fetched := none, merged := landing.merged }) :
    Kept scheme s' := by
  have hall : ∀ {P : ElusivTransaction → Prop}, P landing.tx → (∀ x ∈ s.chain.txs, P x) →
      ∀ x ∈ s'.chain.txs, P x := by
    intro P hnew hold x hx
    rcases (mem_txs_landed hchain).mp hx with rfl | hx
    · exact hnew
    · exact hold x hx
  constructor
  case gapless =>
    rw [hchain]
    exact hs.gapless.land hb.nonce_le pos hstatus
  case distinct =>
    rw [hchain]
    refine hs.distinct.land (fun x hx => ?_) pos hstatus
    have hnonce := s.chain.nonce_eq _ x hx
    exact ht.hash_ne x (History.mem_txs.mpr (hnonce.symm ▸ hx)) hnonce
  case tells => exact hall hb.tells hs.tells
  case described => exact hall hb.described hs.described
  case tokenType_eq => exact hall hb.tokenType_eq hs.tokenType_eq
  case signed => exact hall hb.signed hs.signed
  case signatures =>
    intro x hx y hy heq
    rcases (mem_txs_landed hchain).mp hx with rfl | hx
    · rcases (mem_txs_landed hchain).mp hy with rfl | hy
      · rfl
      · exact absurd heq.symm (ha.1 y hy)
    · rcases (mem_txs_landed hchain).mp hy with rfl | hy
      · exact absurd heq (ha.1 x hx)
      · exact hs.signatures x hx y hy heq
  case instances =>
    intro j
    rw [hchain, hinstances]
    by_cases hj : j = i
    · subst hj
      rw [Function.update_self]
      refine ⟨(instance_land (hs.instances j) (ht.uncached j)).coherent,
        fun _ _ hfetched => (nomatch hfetched), fun merged hmerged => ?_⟩
      have hnonce := hb.merged merged hmerged
      have hlength : landing.tx.nonce + 1 ≤ (s.chain.land landing.tx pos hstatus).length :=
        Nat.le_max_right _ _
      exact ⟨by omega, by omega⟩
    · rw [Function.update_of_ne hj]
      exact instance_land (hs.instances j) (ht.uncached j)
  case inputs => exact inputs_land hs hb hchain hlanded
  case spends => exact spends_land hs hb ht hchain hlanded hsep
  case oneSend => exact oneSend_land hs hb ht hchain hsep
  case few => exact few_land hs hb ht hchain hlanded ha

end Landing

section Run

variable [DecidableEq ι] {poseidon : Poseidon} (circuits : Circuits poseidon)
  (serialization : Serialization) (seedWrapper : SeedWrapper) (accs : ProgramAccounts)
  (owner : PublicKey) (hasCommitment : Bytes → ℕ → Bool)

/-- What the event lands, it lands in time. -/
def Timely (s : SharedWallet ι) : WalletEvent ι → Prop
  | .land i call _ => ∀ landing,
      (s.instances i).build circuits serialization seedWrapper accs owner call = some landing →
        s.InTime (seedWrapper.commitmentScheme poseidon hasCommitment) landing
  | _ => True

variable {circuits serialization seedWrapper accs owner hasCommitment}

lemma land_cases {i : ι} {landing : Landing} {pos : ℕ} {s' : SharedWallet ι}
    (h : s.land i landing pos = some s') : s.Accepts landing ∧
      ∃ hstatus, s' = ⟨s.chain.land landing.tx pos hstatus, Function.update s.instances i
        ⟨(s.instances i).manager, none, landing.merged⟩, landing :: s.landed⟩ := by
  rw [land] at h
  split_ifs at h with ha
  obtain ⟨chain, hgrow, rfl⟩ := Option.map_eq_some_iff.mp h
  rw [History.grow] at hgrow
  split_ifs at hgrow with hstatus
  obtain rfl := Option.some.inj hgrow
  exact ⟨ha, hstatus, rfl⟩

/-- What a fetch leaves behind. -/
lemma step_fetch_cases {i : ι} {tokenType : TokenType} {answers : Answers} {s' : SharedWallet ι}
    (h : step circuits serialization seedWrapper accs owner s (.fetch i tokenType answers) = some s') :
    ∃ result m, exec (fetchTxRemoteParams seedWrapper poseidon s.chain.fetcher s.chain.enoughFuel answers
        tokenType) (s.instances i).manager = (result, m) ∧
      s' = s.setInstance i ⟨m, result.toOption.map fun params => (tokenType, params), none⟩ := by
  dsimp only [step] at h
  split at h
  · rename_i failure m hexec
    exact ⟨.error failure, m, hexec, (Option.some.inj h).symm⟩
  · rename_i params m hexec
    exact ⟨.ok params, m, hexec, (Option.some.inj h).symm⟩

/-- What is built is landed; without it the instance starts again. -/
lemma step_land_cases {i : ι} {call : BuildCall} {pos : ℕ} {s' : SharedWallet ι}
    (h : step circuits serialization seedWrapper accs owner s (.land i call pos) = some s') :
    s' = s.setInstance i ⟨(s.instances i).manager, none, none⟩ ∨
      ∃ landing, (s.instances i).build circuits serialization seedWrapper accs owner call = some landing ∧
        s.land i landing pos = some s' := by
  dsimp only [step] at h
  split at h
  · exact Or.inl (Option.some.inj h).symm
  · rename_i landing hbuild
    exact Or.inr ⟨landing, hbuild, h⟩

lemma length_le_step {e : WalletEvent ι} {s' : SharedWallet ι}
    (h : step circuits serialization seedWrapper accs owner s e = some s') :
    s.chain.length ≤ s'.chain.length := by
  cases e with
  | query i q => exact Nat.le_of_eq (Option.some.inj h ▸ rfl)
  | fetch i tokenType answers =>
      obtain ⟨result, m, -, rfl⟩ := step_fetch_cases h
      exact Nat.le_refl _
  | land i call pos =>
      rcases step_land_cases h with rfl | ⟨landing, -, h⟩
      · exact Nat.le_refl _
      · obtain ⟨-, hstatus, rfl⟩ := land_cases h
        exact s.chain.length_le_land _ pos hstatus

/-- **Every step in time keeps it.** -/
theorem Kept.step (hs : Kept (seedWrapper.commitmentScheme poseidon hasCommitment) s)
    (hsep : (seedWrapper.commitmentScheme poseidon hasCommitment).Separates)
    (hlen : s.chain.length ≤ MAX_UINT32) {e : WalletEvent ι}
    (ht : s.Timely circuits serialization seedWrapper accs owner hasCommitment e) {s' : SharedWallet ι}
    (h : step circuits serialization seedWrapper accs owner s e = some s') :
    Kept (seedWrapper.commitmentScheme poseidon hasCommitment) s' := by
  have hgaps : s.chain.GapsBelow DEFAULT_FETCH_BATCH_SIZE := hs.gapless.gapsBelow (by decide)
  cases e with
  | query i q =>
      obtain rfl := Option.some.inj h
      have hi := hs.instances i
      refine hs.setInstance ⟨?_, hi.fetched, hi.merged⟩
      exact (q.alone_spec hi.coherent hgaps (Nat.le_refl _)).store (fun _ _ hm => hm.2)
        (fun _ _ hm => hm.elim) rfl
  | fetch i tokenType answers =>
      have hspec := fetchTxRemoteParams_spec (hs.instances i).coherent hs.gapless hlen
        (fun n tx htx => hs.tells tx (History.mem_txs.mpr (s.chain.nonce_eq n tx htx ▸ htx)))
        (hs.nodup_activeTxs hsep hlen tokenType) answers
      obtain ⟨result, m, hexec, rfl⟩ := step_fetch_cases h
      cases result with
      | error failure =>
          exact hs.setInstance ⟨hspec.of_error rfl hexec, fun _ _ hf => (nomatch hf),
            fun _ hm => nomatch hm⟩
      | ok params =>
          obtain ⟨hcomms, hnonce, hm⟩ := hspec.of_ok rfl hexec
          refine hs.setInstance ⟨hm, ?_, fun _ hm => nomatch hm⟩
          intro tokenType' params' hfetched
          obtain ⟨rfl, rfl⟩ := Prod.mk.inj (Option.some.inj hfetched)
          refine ⟨by omega, by omega, fun comm hcomm => ?_⟩
          rw [hcomms] at hcomm
          obtain ⟨tx, htx, rfl⟩ := List.mem_map.mp hcomm
          have hactive := hs.gapless.mem_activeTxs hlen ((sendsLast_perm _).subset htx)
          have hmem := History.mem_txs.mpr hactive.1
          have hlt := History.lt_length_of_mem_txs hmem
          exact ⟨tx, hmem, hactive.2, rfl, by omega⟩
  | land i call pos =>
      rcases step_land_cases h with rfl | ⟨landing, hbuild, h⟩
      · exact hs.setInstance ⟨(hs.instances i).coherent, fun _ _ hf => (nomatch hf),
          fun _ hm => nomatch hm⟩
      · obtain ⟨ha, hstatus, rfl⟩ := land_cases h
        have hb := Instance.build_spec hasCommitment (hs.instances i) hbuild
        have hchain : s.chain.land landing.tx pos hstatus = s.chain.land landing.tx pos hstatus := rfl
        exact kept_land hs hb (ht landing hbuild) hchain rfl hsep ha rfl

/-- **No commitment is lost while every transaction lands in time**, in any order of what the instances do.
Nonces have 32 bits, and the hash of the wallet's commitments has no collision. -/
theorem sound_of_timely (hsep : (seedWrapper.commitmentScheme poseidon hasCommitment).Separates)
    {events : List (WalletEvent ι)} {s : SharedWallet ι}
    (hrun : run (step circuits serialization seedWrapper accs owner) start events = some s)
    (htimely : Allowed (step circuits serialization seedWrapper accs owner)
      (Timely circuits serialization seedWrapper accs owner hasCommitment) start events)
    (hlen : s.chain.length ≤ MAX_UINT32) :
    s.Sound (seedWrapper.commitmentScheme poseidon hasCommitment) := by
  have hkept : s.chain.length ≤ MAX_UINT32 →
      Kept (seedWrapper.commitmentScheme poseidon hasCommitment) s := by
    refine run_invariant (I := fun s => s.chain.length ≤ MAX_UINT32 → Kept _ s) ?_
      (fun _ => Kept.start_kept) htimely hrun
    intro s e s' hs ht hstep hlen'
    have hlen := Nat.le_trans (length_le_step hstep) hlen'
    exact (hs hlen).step hsep hlen ht hstep
  exact (hkept hlen).sound hsep hlen

end Run

/-! ### Two instances -/

instance [Fintype ι] {poseidon : Poseidon} (circuits : Circuits poseidon)
    (serialization : Serialization) (seedWrapper : SeedWrapper) (accs : ProgramAccounts)
    (owner : PublicKey) (hasCommitment : Bytes → ℕ → Bool) (s : SharedWallet ι) :
    ∀ e, Decidable (s.Timely circuits serialization seedWrapper accs owner hasCommitment e)
  | .query _ _ => .isTrue trivial
  | .fetch _ _ _ => .isTrue trivial
  | .land i call _ => inferInstanceAs (Decidable (∀ landing ∈
      (s.instances i).build circuits serialization seedWrapper accs owner call, s.InTime _ landing))

open Client

def pairStep : SharedWallet Bool → WalletEvent Bool → Option (SharedWallet Bool) :=
  step openCircuits plainSerialization plainSeed plainAccounts (ElusivTransaction.bareKey 12)

def pairFetch (i : Bool) : WalletEvent Bool :=
  .fetch i .LAMPORTS ⟨plainParams 0 [], fun _ _ => true⟩

def pairData (signature : ConfirmedSignatureInfo) : FinalizeData :=
  { recipient := ElusivTransaction.bareKey 14, refKey := ElusivTransaction.bareKey 0
    owner := ElusivTransaction.bareKey 12, encryptedOwner := { cipherText := [], iv := [] }
    signature := signature }

def pairTopup (i : Bool) (amount : ℚ) (signature : String) : WalletEvent Bool :=
  .land i (.topup false (plainTopupRequest amount) 0 ⟨signature, none, none⟩
    (pairData ⟨signature, none, none⟩)) 0

def pairSend (i : Bool) (amount : ℚ) (signature : String) : WalletEvent Bool :=
  .land i (.send (plainSendRequest amount) (pairData ⟨signature, none, none⟩)) 0

/-- Both instances start with a topup on nonce 0.  Then one sends both commitments while the other tops up
on the nonce of the send. -/
def timelyRun : List (WalletEvent Bool) :=
  [pairFetch true, pairFetch false, pairTopup true 1000000 "a", pairTopup false 2000000 "b",
    pairFetch true, pairFetch false, pairSend true 700000 "c", pairTopup false 3000000 "d"]

theorem sound_timelyRun : ∃ s, run pairStep start timelyRun = some s ∧
    s.chain.txs.map ElusivTransaction.nonce = [1, 1, 0, 0] ∧
    (s.unspent openScheme .LAMPORTS).map ElusivTransaction.amount = [700000, 3000000] ∧
    s.Sound openScheme := by
  have hsome : ((run pairStep start timelyRun).map fun s => (s.chain.length,
      s.chain.txs.map ElusivTransaction.nonce,
      (s.unspent openScheme .LAMPORTS).map ElusivTransaction.amount))
      = some (2, [1, 1, 0, 0], [700000, 3000000]) := by
    decide +kernel
  obtain ⟨s, hrun, hs⟩ := Option.map_eq_some_iff.mp hsome
  obtain ⟨hlength, hs⟩ := Prod.mk.inj hs
  obtain ⟨hnonces, hunspent⟩ := Prod.mk.inj hs
  refine ⟨s, hrun, hnonces, hunspent, ?_⟩
  have htimely : Allowed pairStep (Timely openCircuits plainSerialization plainSeed plainAccounts
      (ElusivTransaction.bareKey 12) fun _ _ => true) start timelyRun := by
    decide +kernel
  refine sound_of_timely separates_openScheme hrun htimely ?_
  rw [hlength]
  decide

/-- Three topups, and then both instances top up from what they have fetched. -/
def staleRun : List (WalletEvent Bool) :=
  [pairFetch true, pairTopup true 1000000 "a", pairFetch true, pairTopup true 2000000 "b",
    pairFetch true, pairTopup true 3000000 "c", pairFetch true, pairFetch false,
    pairTopup true 4000000 "d", pairTopup false 5000000 "e"]

/-- **The second topup is one too many**: the commitment of nonce 0 is not spent, and `getActiveTxs` does not
find it. -/
theorem stale_unsound : ∃ s, run pairStep start staleRun = some s ∧
    (s.unspent openScheme .LAMPORTS).map ElusivTransaction.nonce = [3, 3, 2, 1, 0] ∧
    (∀ i, (exec (getActiveTxs s.chain.fetcher s.chain.enoughFuel .LAMPORTS none)
      (s.instances i).manager).1.map (List.map ElusivTransaction.nonce) = .ok [3, 3, 2, 1]) ∧
    ¬ s.Sound openScheme := by
  have hsome : ((run pairStep start staleRun).map fun s =>
      ((s.unspent openScheme .LAMPORTS).map ElusivTransaction.nonce, fun i =>
        (exec (getActiveTxs s.chain.fetcher s.chain.enoughFuel .LAMPORTS none)
          (s.instances i).manager).1.map (List.map ElusivTransaction.nonce)))
      = some ([3, 3, 2, 1, 0], fun _ => .ok [3, 3, 2, 1]) := by
    decide +kernel
  obtain ⟨s, hrun, hs⟩ := Option.map_eq_some_iff.mp hsome
  obtain ⟨hunspent, hactive⟩ := Prod.mk.inj hs
  refine ⟨s, hrun, hunspent, congrFun hactive, fun hsound => ?_⟩
  have hfew := hsound.few .LAMPORTS
  rw [← List.length_map, hunspent] at hfew
  exact absurd hfew (by decide)

end SharedWallet

end ElusivSdk
