import ElusivSdk.Chain.Growth
import ElusivSdk.Library.Transition
import ElusivSdk.TxManagers.Query

/-!
# Managers on a growing chain

Between the calls of one manager the chain grows.  A nonce that is cached is never fetched again, and
a cached transaction is never replaced, so what a nonce gains after it was cached is not seen.

* `ManagedChain.step` — the chain grows, or a call on the manager completes.
* **`ManagedChain.calls_agree`** — as long as no cached nonce grows, every call returns what it would
  return on a new manager.
* `ManagedChain.calls_outdated` — a send that was fetched before it was finalized keeps lacking its
  recipient, and a second transaction of a cached nonce stays away.
-/

namespace ElusivSdk

open Program Transition

structure ManagedChain where
  chain : History
  manager : TxManager

inductive ManagerEvent
  | grow (g : Growth)
  | call (q : Query)

namespace ManagedChain

/-- Fuel with which no loop of a call runs out of it. -/
def fuel (s : ManagedChain) : ℕ := s.chain.length + DEFAULT_FETCH_BATCH_SIZE + 3

/-- What a call returns now, on the manager `m`. -/
def returns (s : ManagedChain) (m : TxManager) (q : Query) :
    Except Failure (List ElusivTransaction) := (exec (q.alone s.chain.fetcher s.fuel) m).1

def step (s : ManagedChain) : ManagerEvent → Option ManagedChain
  | .grow g => do
      let chain ← s.chain.grow g
      some { s with chain := chain }
  | .call q =>
      match exec (q.alone s.chain.fetcher s.fuel) s.manager with
      | (.ok _, manager) => some { s with manager := manager }
      | (.error _, _) => none

/-- Only nonces grow that the manager has not cached, and none far above the newest one. -/
def Uncached (s : ManagedChain) : ManagerEvent → Prop
  | .grow g => s.manager.bucket g.nonce = [] ∧ g.nonce < s.chain.length + DEFAULT_FETCH_BATCH_SIZE
  | .call _ => True

instance (s : ManagedChain) : ∀ e, Decidable (Uncached s e)
  | .grow _ => inferInstanceAs (Decidable (_ ∧ _))
  | .call _ => inferInstanceAs (Decidable True)

/-- The manager agrees with the chain wherever it has cached anything. -/
structure Ok (s : ManagedChain) : Prop where
  gaps : s.chain.GapsBelow DEFAULT_FETCH_BATCH_SIZE
  coherent : Coherent s.chain s.manager

lemma Ok.step {s s' : ManagedChain} (hs : s.Ok) {e : ManagerEvent} (he : Uncached s e)
    (hstep : s.step e = some s') : s'.Ok := by
  cases e with
  | grow g =>
      obtain ⟨chain, hg, hstep⟩ := Option.bind_eq_some_iff.mp hstep
      obtain rfl := Option.some.inj hstep
      exact ⟨hs.gaps.grow hg he.2, hs.coherent.grow hg he.1⟩
  | call q =>
      obtain ⟨txs, m, hexec, -, hc⟩ := (q.alone_spec hs.coherent hs.gaps (Nat.le_refl s.fuel)).run rfl
      rw [ManagedChain.step, hexec] at hstep
      obtain rfl := Option.some.inj hstep
      exact ⟨hs.gaps, hc⟩

/-- **Every call returns what it would return on a new manager**, after every run in which no cached
nonce grows. -/
theorem calls_agree {h₀ : History} (hgaps : h₀.GapsBelow DEFAULT_FETCH_BATCH_SIZE)
    {es : List ManagerEvent} {s : ManagedChain} (hrun : run step ⟨h₀, .new⟩ es = some s)
    (huncached : Allowed step Uncached ⟨h₀, .new⟩ es) (q : Query) :
    ∃ txs, s.returns s.manager q = .ok txs ∧ s.returns .new q = .ok txs := by
  have hs : s.Ok := run_invariant (I := Ok) (fun _ _ _ hs he hstep => hs.step he hstep)
    ⟨hgaps, coherent_new h₀⟩ huncached hrun
  obtain ⟨txs, m, hexec, rfl, -⟩ := (q.alone_spec hs.coherent hs.gaps (Nat.le_refl s.fuel)).run rfl
  obtain ⟨txs', m', hexec', rfl, -⟩ :=
    (q.alone_spec (coherent_new s.chain) hs.gaps (Nat.le_refl s.fuel)).run rfl
  exact ⟨s.chain.answer q, congrArg Prod.fst hexec, congrArg Prod.fst hexec'⟩

/-! ### A send that is finalized, a nonce that is used twice -/

/-- A send of which only the init transaction is on the chain. -/
def pendingSend : ElusivTransaction :=
  { ElusivTransaction.bareSend 0 .LAMPORTS 1 0 1 none with transactionStatus := some .PENDING }

def finalizeData : FinalizeData :=
  { recipient := ElusivTransaction.bareKey 1, refKey := ElusivTransaction.bareKey 2
    owner := ElusivTransaction.bareKey 3
    encryptedOwner := { cipherText := [], iv := [] }, signature := ⟨"2", none, none⟩ }

def pendingChain : History := .ofList [pendingSend] (by decide)

lemma pendingChain_gaps : pendingChain.GapsBelow DEFAULT_FETCH_BATCH_SIZE := by
  have hgapless : pendingChain.Gapless := show ∀ n < 1, pendingChain.txsAt n ≠ [] by decide
  exact hgapless.gapsBelow (by decide)

/-- The next nonce is used after the first one was fetched. -/
theorem calls_agree_nextNonce :
    ∃ s, run step ⟨pendingChain, .new⟩ [.call (.fetchTxs 1 none none),
        .grow (.land (.bareTopup 1 .LAMPORTS 1 2) 0)] = some s ∧
      ∃ txs, s.returns s.manager (.fetchTxs 2 none none) = .ok txs ∧
        s.returns .new (.fetchTxs 2 none none) = .ok txs := by
  have hsome : (run step ⟨pendingChain, .new⟩ [.call (.fetchTxs 1 none none),
      .grow (.land (.bareTopup 1 .LAMPORTS 1 2) 0)]).isSome = true := by decide +kernel
  obtain ⟨s, hrun⟩ := Option.isSome_iff_exists.mp hsome
  exact ⟨s, hrun, calls_agree pendingChain_gaps hrun (by decide +kernel) _⟩

/-- **What a cached nonce gains is never seen**: neither the recipient of a send that was fetched before
it was finalized, nor a second transaction of the nonce. -/
theorem calls_outdated :
    ((run step ⟨pendingChain, .new⟩ [.call (.fetchTxs 1 none none),
        .grow (.finalize 0 0 0 finalizeData)]).map fun s =>
      (s.returns s.manager (.fetchTxs 1 none none), s.returns .new (.fetchTxs 1 none none)))
      = some (.ok [pendingSend], .ok [pendingSend.finalize finalizeData]) ∧
    ((run step ⟨pendingChain, .new⟩ [.call (.fetchTxs 1 none none),
        .grow (.land (.bareTopup 0 .LAMPORTS 1 2) 0)]).map fun s =>
      (s.returns s.manager (.fetchTxs 1 none none), s.returns .new (.fetchTxs 1 none none)))
      = some (.ok [pendingSend], .ok [pendingSend, .bareTopup 0 .LAMPORTS 1 2]) := by
  constructor
  · decide +kernel
  · decide +kernel

end ManagedChain

end ElusivSdk
