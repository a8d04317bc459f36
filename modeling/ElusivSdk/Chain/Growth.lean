import ElusivSdk.Chain.History

/-!
# Growth of the chain

The chain grows in three ways (`Growth`): a nonce gains its first transaction, a nonce gains a further
one, and a send of which only the init transaction was there gains its finalize transaction, with the
recipient, the owner and the reference key.  Nothing ever leaves the chain.

* `History.land`, `History.finalize` — the new chain; the position among the transactions of the nonce
  is left open.
* `KeysAgree p` — transactions with one nonce and commitment hash are selected together.
* **`History.selected_land`** — a transaction that is not selected changes no selected part.
* `GapsBelow.grow`, `Coherent.grow` — when growth leaves no gap, and when it leaves a manager coherent.
-/

namespace ElusivSdk

open Descending

/-- What the finalize transaction of a send tells. -/
structure FinalizeData where
  recipient : PublicKey
  refKey : PublicKey
  owner : PublicKey
  encryptedOwner : EncryptedValue
  signature : ConfirmedSignatureInfo
deriving DecidableEq

/-- A pending send with its finalize transaction; the signature and the memo are those of the
latter. -/
def ElusivTransaction.finalize (tx : ElusivTransaction) (data : FinalizeData) : ElusivTransaction :=
  match tx.body with
  | .store _ => tx
  | .send fields =>
      { tx with
        transactionStatus := some .PROCESSED
        signature := some data.signature
        body := .send { fields with
          recipient := some data.recipient
          refKey := some data.refKey
          owner := some data.owner
          encryptedOwner := some data.encryptedOwner
          memo := data.signature.memo } }

lemma ElusivTransaction.nonce_finalize (tx : ElusivTransaction) (data : FinalizeData) :
    (tx.finalize data).nonce = tx.nonce := by
  rw [finalize]
  split <;> rfl

lemma ElusivTransaction.status_finalize {tx : ElusivTransaction} (data : FinalizeData)
    (htx : tx.transactionStatus ≠ some .CONFIRMED) :
    (tx.finalize data).transactionStatus ≠ some .CONFIRMED := by
  rw [finalize]
  split
  · exact htx
  · exact nofun

namespace History

/-- The chain with `txs` for the nonce `n`. -/
def setNonce (h : History) (n : ℕ) (txs : List ElusivTransaction) (hne : txs ≠ [])
    (hnonce : ∀ tx ∈ txs, tx.nonce = n)
    (hstatus : ∀ tx ∈ txs, tx.transactionStatus ≠ some .CONFIRMED) : History where
  txsAt k := if k = n then txs else h.txsAt k
  length := max h.length (n + 1)
  nonce_eq k x hx := by
    split_ifs at hx with hk
    · rw [hk]
      exact hnonce x hx
    · exact h.nonce_eq k x hx
  ne_nil_of_newest k hlen := by
    split_ifs with hk
    · exact hne
    · exact h.ne_nil_of_newest k (by omega)
  eq_nil_of_length_le k hlen := by
    rw [if_neg (by omega)]
    exact h.eq_nil_of_length_le k (by omega)
  not_confirmed k x hx := by
    split_ifs at hx with hk
    · exact hstatus x hx
    · exact h.not_confirmed k x hx

/-- A list with one more entry, at position `pos`. -/
def putAt (txs : List ElusivTransaction) (tx : ElusivTransaction) (pos : ℕ) :
    List ElusivTransaction := txs.take pos ++ tx :: txs.drop pos

lemma mem_putAt {txs : List ElusivTransaction} {tx x : ElusivTransaction} {pos : ℕ} :
    x ∈ putAt txs tx pos ↔ x = tx ∨ x ∈ txs := by
  conv_rhs => rw [← List.take_append_drop pos txs]
  simp only [putAt, List.mem_append, List.mem_cons]
  tauto

lemma putAt_ne_nil {txs : List ElusivTransaction} {tx : ElusivTransaction} {pos : ℕ} :
    putAt txs tx pos ≠ [] := List.ne_nil_of_mem (mem_putAt.mpr (Or.inl rfl))

/-- `tx` lands; it stands at position `pos` among the transactions of its nonce. -/
def land (h : History) (tx : ElusivTransaction) (pos : ℕ)
    (hstatus : tx.transactionStatus ≠ some .CONFIRMED) : History :=
  h.setNonce tx.nonce (putAt (h.txsAt tx.nonce) tx pos) putAt_ne_nil
    (fun x hx => (mem_putAt.mp hx).elim (fun hx => congrArg _ hx) (h.nonce_eq tx.nonce x))
    (fun x hx => (mem_putAt.mp hx).elim (fun hx => hx ▸ hstatus) (h.not_confirmed tx.nonce x))

/-- The pending send at position `i` of the nonce `n` is finalized; it stands at position `pos` then. -/
def finalize (h : History) (n i pos : ℕ) (data : FinalizeData) : Option History :=
  match htx : (h.txsAt n)[i]? with
  | none => none
  | some tx =>
      if tx.txType = .SEND ∧ tx.transactionStatus = some .PENDING then
        have hmem : tx ∈ h.txsAt n := List.mem_of_getElem? htx
        some <| h.setNonce n (putAt ((h.txsAt n).eraseIdx i) (tx.finalize data) pos) putAt_ne_nil
          (fun x hx => (mem_putAt.mp hx).elim
            (fun hx => by rw [hx, tx.nonce_finalize, h.nonce_eq n tx hmem])
            fun hx => h.nonce_eq n x (List.mem_of_mem_eraseIdx hx))
          (fun x hx => (mem_putAt.mp hx).elim
            (fun hx => hx ▸ ElusivTransaction.status_finalize data (h.not_confirmed n tx hmem))
            fun hx => h.not_confirmed n x (List.mem_of_mem_eraseIdx hx))
      else none

variable {h : History} {tx : ElusivTransaction} {pos : ℕ}
  {hstatus : tx.transactionStatus ≠ some .CONFIRMED}

lemma length_le_land (h : History) (tx : ElusivTransaction) (pos : ℕ)
    (hstatus : tx.transactionStatus ≠ some .CONFIRMED) :
    h.length ≤ (h.land tx pos hstatus).length := Nat.le_max_left _ _

lemma txsAt_land_of_ne {n : ℕ} (hn : n ≠ tx.nonce) :
    (h.land tx pos hstatus).txsAt n = h.txsAt n := if_neg hn

lemma txsAt_land_nonce :
    (h.land tx pos hstatus).txsAt tx.nonce = putAt (h.txsAt tx.nonce) tx pos := if_pos rfl

lemma mem_land {n : ℕ} {x : ElusivTransaction} (hx : x ∈ (h.land tx pos hstatus).txsAt n) :
    x = tx ∨ x ∈ h.txsAt n := by
  by_cases hn : n = tx.nonce
  · subst hn
    rw [txsAt_land_nonce] at hx
    exact mem_putAt.mp hx
  · rw [txsAt_land_of_ne hn] at hx
    exact Or.inr hx

lemma mem_txs_land {x : ElusivTransaction} :
    x ∈ (h.land tx pos hstatus).txs ↔ x = tx ∨ x ∈ h.txs := by
  rw [mem_txs, mem_txs]
  by_cases hn : x.nonce = tx.nonce
  · rw [hn, txsAt_land_nonce, mem_putAt]
  · rw [txsAt_land_of_ne hn]
    refine ⟨Or.inr, fun hx => hx.elim (fun heq => ?_) id⟩
    exact absurd (congrArg _ heq) hn

/-- The chain holds one transaction more. -/
lemma txs_land_perm : (h.land tx pos hstatus).txs.Perm (tx :: h.txs) := by
  have hput : (putAt (h.txsAt tx.nonce) tx pos).Perm (tx :: h.txsAt tx.nonce) := by
    refine List.perm_middle.trans ?_
    rw [List.take_append_drop]
  have hbelow : ∀ hi, tx.nonce < hi →
      (below (h.land tx pos hstatus).txsAt hi).Perm (tx :: below h.txsAt hi) := by
    intro hi hlt
    induction hi with
    | zero => exact absurd hlt (Nat.not_lt_zero _)
    | succ n ih =>
        rw [below, below, between_succ (Nat.zero_le n), between_succ (Nat.zero_le n), ← below, ← below]
        rcases Nat.lt_succ_iff_lt_or_eq.mp hlt with hn | rfl
        · rw [txsAt_land_of_ne (by omega)]
          exact ((ih hn).append_left _).trans List.perm_middle
        · have hsame : below (h.land tx pos hstatus).txsAt tx.nonce = below h.txsAt tx.nonce :=
            between_congr fun k _ hk => txsAt_land_of_ne (by omega)
          rw [hsame, txsAt_land_nonce]
          have hrev : (putAt (h.txsAt tx.nonce) tx pos).reverse.Perm
              (tx :: (h.txsAt tx.nonce).reverse) :=
            (List.reverse_perm _).trans (hput.trans ((List.reverse_perm _).symm.cons tx))
          exact hrev.append_right _
  have hlength : below h.txsAt (max h.length (tx.nonce + 1)) = h.txs :=
    between_eq_of_empty (Nat.le_max_left _ _) fun n hn => h.eq_nil_of_length_le n hn
  have hperm := hbelow (max h.length (tx.nonce + 1)) (by omega)
  rw [hlength] at hperm
  exact hperm

lemma DistinctHashes.land (hd : h.DistinctHashes)
    (hnew : ∀ x ∈ h.txsAt tx.nonce, x.commitmentHash ≠ tx.commitmentHash) (pos : ℕ)
    (hstatus : tx.transactionStatus ≠ some .CONFIRMED) : (h.land tx pos hstatus).DistinctHashes := by
  intro n
  by_cases hn : n = tx.nonce
  · rw [hn, txsAt_land_nonce, putAt]
    refine (List.pairwise_middle fun h => Ne.symm h).mpr ?_
    rw [List.take_append_drop]
    exact List.pairwise_cons.mpr ⟨fun x hx => (hnew x hx).symm, hd tx.nonce⟩
  · rw [txsAt_land_of_ne hn]
    exact hd n

/-- A transaction on a used nonce, or on the next one, leaves no gap. -/
lemma Gapless.land (hg : h.Gapless) (hle : tx.nonce ≤ h.length) (pos : ℕ)
    (hstatus : tx.transactionStatus ≠ some .CONFIRMED) : (h.land tx pos hstatus).Gapless := by
  intro n hn
  have hn' : n < max h.length (tx.nonce + 1) := hn
  by_cases heq : n = tx.nonce
  · subst heq
    rw [txsAt_land_nonce]
    exact putAt_ne_nil
  · rw [txsAt_land_of_ne heq]
    exact hg n (by omega)

/-- Transactions with one nonce and commitment hash are selected together. -/
def KeysAgree (h : History) (p : ElusivTransaction → Bool) : Prop :=
  ∀ n, ∀ x ∈ h.txsAt n, ∀ y ∈ h.txsAt n, x.key = y.key → p x = p y

/-- The selected part of a nonce, as it is cached. -/
def selected (h : History) (p : ElusivTransaction → Bool) (n : ℕ) : List ElusivTransaction :=
  (h.bucket n).filter p

lemma KeysAgree.selected_eq {p : ElusivTransaction → Bool} (hk : h.KeysAgree p) (n : ℕ) :
    h.selected p n = dedup equalTx ((h.txsAt n).filter p) :=
  filter_dedup p fun v hv t ht he => hk n t ht v hv (equalTx_iff.mp he)

lemma KeysAgree.land {p : ElusivTransaction → Bool} (hk : h.KeysAgree p)
    (hnew : ∀ x ∈ h.txsAt tx.nonce, x.key = tx.key → p x = p tx) (pos : ℕ)
    (hstatus : tx.transactionStatus ≠ some .CONFIRMED) :
    (h.land tx pos hstatus).KeysAgree p := by
  intro n x hx y hy hkey
  have hself : ∀ z ∈ (h.land tx pos hstatus).txsAt n, z.key = tx.key → p z = p tx := by
    intro z hz hzkey
    rcases mem_land hz with rfl | hz'
    · rfl
    · have hn : n = tx.nonce := (h.nonce_eq n z hz').symm.trans (congrArg Prod.fst hzkey)
      subst hn
      exact hnew z hz' hzkey
  rcases mem_land hx with rfl | hx'
  · exact (hself y hy hkey.symm).symm
  · rcases mem_land hy with rfl | hy'
    · exact hself x hx hkey
    · exact hk n x hx' y hy' hkey

/-- **A transaction that is not selected changes no selected part.** -/
theorem selected_land {p : ElusivTransaction → Bool} (hk : h.KeysAgree p) (htx : p tx = false)
    (hnew : ∀ x ∈ h.txsAt tx.nonce, x.key = tx.key → p x = p tx) (pos : ℕ)
    (hstatus : tx.transactionStatus ≠ some .CONFIRMED) (n : ℕ) :
    (h.land tx pos hstatus).selected p n = h.selected p n := by
  rw [(hk.land hnew pos hstatus).selected_eq, hk.selected_eq]
  by_cases hn : n = tx.nonce
  · subst hn
    rw [txsAt_land_nonce, putAt, List.filter_append, List.filter_cons_of_neg (Bool.eq_false_iff.mp htx),
      ← List.filter_append, List.take_append_drop]
  · rw [txsAt_land_of_ne hn]

/-- A transaction whose commitment hash is new on its nonce drives nothing out. -/
lemma bucket_subset_land (hfresh : ∀ x ∈ h.txsAt tx.nonce, x.key ≠ tx.key) (pos : ℕ)
    (hstatus : tx.transactionStatus ≠ some .CONFIRMED) (n : ℕ) :
    h.bucket n ⊆ (h.land tx pos hstatus).bucket n := by
  have hkeys : h.KeysAgree fun x => decide (x.key ≠ tx.key) :=
    fun _ x _ y _ hkey => congrArg (fun key => decide (key ≠ tx.key)) hkey
  have hsame := selected_land hkeys (by simp)
    (fun x _ hkey => congrArg (fun key => decide (key ≠ tx.key)) hkey) pos hstatus n
  intro x hx
  have hne : x.key ≠ tx.key := by
    intro hkey
    have hmem := h.bucket_subset n hx
    have hn : n = tx.nonce := (h.nonce_eq n x hmem).symm.trans (congrArg Prod.fst hkey)
    subst hn
    exact hfresh x hmem hkey
  have hsel : x ∈ h.selected (fun x => decide (x.key ≠ tx.key)) n :=
    List.mem_filter.mpr ⟨hx, decide_eq_true hne⟩
  rw [← hsame] at hsel
  exact List.mem_of_mem_filter hsel

/-! ## The three ways to grow -/

end History

/-- A nonce gains a transaction, or a pending send of it is finalized. -/
inductive Growth
  | land (tx : ElusivTransaction) (pos : ℕ)
  | finalize (n i pos : ℕ) (data : FinalizeData)
deriving DecidableEq

def Growth.nonce : Growth → ℕ
  | land tx _ => tx.nonce
  | finalize n _ _ _ => n

namespace History

def grow (h : History) : Growth → Option History
  | .land tx pos =>
      if hstatus : tx.transactionStatus ≠ some .CONFIRMED then some (h.land tx pos hstatus) else none
  | .finalize n i pos data => h.finalize n i pos data

variable {h h' : History} {g : Growth}

/-- Growth is about one nonce, which is in use afterwards. -/
lemma grow_spec (hg : h.grow g = some h') : h'.length = max h.length (g.nonce + 1) ∧
    h'.txsAt g.nonce ≠ [] ∧ ∀ n ≠ g.nonce, h'.txsAt n = h.txsAt n := by
  have hset : ∀ (n : ℕ) (txs : List ElusivTransaction) (hne : txs ≠ []) (hnonce) (hstatus),
      (h.setNonce n txs hne hnonce hstatus).length = max h.length (n + 1) ∧
      (h.setNonce n txs hne hnonce hstatus).txsAt n ≠ [] ∧
      ∀ k ≠ n, (h.setNonce n txs hne hnonce hstatus).txsAt k = h.txsAt k := by
    intro n txs hne hnonce hstatus
    refine ⟨rfl, ?_, fun k hk => if_neg hk⟩
    rwa [show (h.setNonce n txs hne hnonce hstatus).txsAt n = txs from if_pos rfl]
  cases g with
  | land tx pos =>
      rw [grow] at hg
      split_ifs at hg
      obtain rfl := Option.some.inj hg
      exact hset _ _ _ _ _
  | finalize n i pos data =>
      rw [grow, finalize] at hg
      split at hg
      · cases hg
      · split_ifs at hg
        obtain rfl := Option.some.inj hg
        exact hset _ _ _ _ _

/-- A pending send can be finalized. -/
lemma grow_finalize {n i pos : ℕ} {tx : ElusivTransaction} (htx : (h.txsAt n)[i]? = some tx)
    (hpending : tx.txType = .SEND ∧ tx.transactionStatus = some .PENDING) (data : FinalizeData) :
    ∃ h', h.grow (.finalize n i pos data) = some h' ∧
      h'.txsAt n = putAt ((h.txsAt n).eraseIdx i) (tx.finalize data) pos := by
  rw [grow, finalize]
  split
  · rename_i hnone
    rw [htx] at hnone
    nomatch hnone
  · rename_i found hfound
    obtain rfl := Option.some.inj (htx.symm.trans hfound)
    rw [if_pos hpending]
    exact ⟨_, rfl, if_pos rfl⟩

/-- A nonce not too far above the newest leaves no large gap. -/
lemma GapsBelow.grow {step : ℕ} (hgaps : h.GapsBelow step) (hg : h.grow g = some h')
    (hn : g.nonce < h.length + step) : h'.GapsBelow step := by
  obtain ⟨hlen, hne, hother⟩ := grow_spec hg
  intro k hk
  rw [hlen] at hk
  by_cases hold : k < h.length
  · obtain ⟨n, h1, h2, h3⟩ := hgaps k hold
    refine ⟨n, h1, h2, ?_⟩
    by_cases hnn : n = g.nonce
    · rwa [hnn]
    · rwa [hother n hnn]
  · exact ⟨g.nonce, by omega, by omega, hne⟩

/-- A nonce up to the next one leaves no gap. -/
lemma Gapless.grow (hgapless : h.Gapless) (hg : h.grow g = some h') (hn : g.nonce ≤ h.length) :
    h'.Gapless := by
  intro k hk
  obtain ⟨n, hkn, hnk, hne⟩ := (hgapless.gapsBelow Nat.one_pos).grow hg (Nat.lt_succ_of_le hn) k hk
  obtain rfl : n = k := Nat.le_antisymm (Nat.le_of_lt_succ hnk) hkn
  exact hne

end History

/-- Growth of a nonce that is not cached keeps a manager coherent. -/
lemma Coherent.grow {h h' : History} {m : TxManager} {g : Growth} (hc : Coherent h m)
    (hg : h.grow g = some h') (hn : m.bucket g.nonce = []) : Coherent h' m := by
  obtain ⟨-, -, hother⟩ := History.grow_spec hg
  intro n hne
  have hnn : n ≠ g.nonce := fun heq => hne (heq ▸ hn)
  rw [hc n hne, History.bucket, History.bucket, hother n hnn]

end ElusivSdk
