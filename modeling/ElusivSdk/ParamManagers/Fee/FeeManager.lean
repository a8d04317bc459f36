import ElusivSdk.AccountReaders.FeeAccounts
import ElusivSdk.Library.Transition
import ElusivSdk.TxBuilding.InstructionBuilding
import Mathlib.Data.List.Infix

/-!
# Fees while the program changes them

A fee manager reads the governor and the fee accounts, and keeps the fee accounts it has read.  Calls overlap,
and between a read and its answer the program can change its fees.  `Elusiv` keeps a fee calculator for its
estimates.

* `FeeCall` — what a call has at a moment: the reads that were answered.
* `FeeClient.step` — the program changes, a call starts, a read is answered.
* `FeeClient.Ok` — fee accounts are only added, and what was read was there.
* **`FeeClient.labelled`** — a fee calculator has the fees of the version it is given out with, and the batching
  rate that the governor had during the call; estimates have those of some moment.
-/

namespace ElusivSdk

open InstructionBuilding Transition

/-! ## The calls -/

def govDataToFeeData (govData : GovernorAccBorsh) : FeeAccBorsh :=
  { pda_data := govData.pda_data, program_fee := govData.program_fee }

inductive FeeRequest
  | getFeeCalculator (feeVersion : Option ℕ)
  | getCurrentFeeVersion
  /-- A batch of estimates, which takes the fee calculator that `Elusiv` keeps, if there is one. -/
  | estimate
deriving DecidableEq

structure FeeCall where
  request : FeeRequest
  /-- The states that the program had left when the call started. -/
  since : ℕ
  /-- What `Elusiv` kept when the call started, for an estimate. -/
  feeCalculatorCached : Option FeeCalculator
  /-- The answers, once they are there. -/
  govData : Option (Except Failure GovernorAccBorsh)
  feeData : Option (Except Failure FeeAccBorsh)

namespace FeeCall

/-- What `getFeeCalculator` returns; with a version it waits for the fee account first. -/
def getFeeCalculator (c : FeeCall) (feeVersion : Option ℕ) :
    Option (Except Failure (FeeCalculator × FeeVersionData)) :=
  match feeVersion with
  | none => c.govData.map fun govData => do
      let gov ← govData
      pure (⟨(govDataToFeeData gov).program_fee, gov.commitment_batching_rate⟩,
        ⟨gov.fee_version, gov.commitment_batching_rate⟩)
  | some version =>
      match c.feeData with
      | none => none
      | some (.error failure) => some (.error failure)
      | some (.ok feeData) => c.govData.map fun govData => do
          let gov ← govData
          pure (⟨feeData.program_fee, gov.commitment_batching_rate⟩, ⟨version, gov.commitment_batching_rate⟩)

def getCurrentFeeVersion (c : FeeCall) : Option (Except Failure ℕ) :=
  c.govData.map fun govData => do
    let gov ← govData
    pure gov.fee_version

/-- The fee calculator of an estimate. -/
def estimateCalculator (c : FeeCall) : Option (Except Failure FeeCalculator) :=
  match c.feeCalculatorCached with
  | some calculator => some (.ok calculator)
  | none => (c.getFeeCalculator none).map fun res => res.map Prod.fst

end FeeCall

/-! ## The system -/

structure FeeClient (ι : Type) where
  /-- The states of the program so far, the oldest first. -/
  programs : List FeeProgram
  cachedFee : ℕ → Option FeeAccBorsh
  feeCalculatorCached : Option FeeCalculator
  calls : ι → Option FeeCall

inductive FeeEvent (ι : Type)
  | change (p : FeeProgram)
  | start (i : ι) (request : FeeRequest)
  | answerGov (i : ι) (conn : AccountConnection)
  | answerFee (i : ι) (conn : AccountConnection)
  /-- An estimate of the batch is computed. -/
  | estimated (i : ι)

namespace FeeClient

variable {ι : Type} [DecidableEq ι]

def start (p : FeeProgram) : FeeClient ι :=
  { programs := [p], cachedFee := fun _ => none, feeCalculatorCached := none, calls := fun _ => none }

def setCall (s : FeeClient ι) (i : ι) (c : FeeCall) : FeeClient ι :=
  { s with calls := Function.update s.calls i (some c) }

/-- A call starts: a version that was read before is taken from the cache. -/
def newCall (s : FeeClient ι) (request : FeeRequest) : FeeCall where
  request := request
  since := s.programs.length - 1
  feeCalculatorCached := if request = .estimate then s.feeCalculatorCached else none
  govData := none
  feeData :=
    match request with
    | .getFeeCalculator (some version) => (s.cachedFee version).map .ok
    | _ => none

/-- The governor was read; `getCurrentFeeVersion` keeps its fee. -/
def onGovData (s : FeeClient ι) (i : ι) (c : FeeCall) (govData : Except Failure GovernorAccBorsh) :
    FeeClient ι :=
  let s := s.setCall i { c with govData := some govData }
  match govData with
  | .ok gov =>
      if c.request = .getCurrentFeeVersion then
        { s with cachedFee := Function.update s.cachedFee gov.fee_version (some (govDataToFeeData gov)) }
      else s
  | .error _ => s

/-- The fee account of a version was read; it is kept. -/
def onFeeData (s : FeeClient ι) (i : ι) (c : FeeCall) (version : ℕ) (feeData : Except Failure FeeAccBorsh) :
    FeeClient ι :=
  let s := s.setCall i { c with feeData := some feeData }
  match feeData with
  | .ok account => { s with cachedFee := Function.update s.cachedFee version (some account) }
  | .error _ => s

def step (accs : ProgramAccounts) (s : FeeClient ι) : FeeEvent ι → Option (FeeClient ι)
  | .change p => some { s with programs := s.programs ++ [p] }
  | .start i request =>
      match s.calls i with
      | none => some (s.setCall i (s.newCall request))
      | some _ => none
  | .answerGov i conn => do
      let c ← s.calls i
      if c.govData.isNone && c.feeCalculatorCached.isNone then
        some (s.onGovData i c (getProgramInfo governorAccBorsh conn (ElusivPDA.governor.key accs)))
      else none
  | .answerFee i conn => do
      let c ← s.calls i
      match c.request, c.feeData with
      | .getFeeCalculator (some version), none =>
          some (s.onFeeData i c version (getProgramInfo feeAccBorsh conn ((ElusivPDA.fee version).key accs)))
      | _, _ => none
  | .estimated i => do
      let c ← s.calls i
      match c.request, c.estimateCalculator with
      | .estimate, some (.ok calculator) => some { s with feeCalculatorCached := some calculator }
      | _, _ => none

/-- Fee accounts are only added; versions have 32 bits; an answer is from a state of the program since the call
started. -/
def Answered (accs : ProgramAccounts) (s : FeeClient ι) : FeeEvent ι → Prop
  | .change p => ∀ latest ∈ s.programs.getLast?, latest.feeAccounts <+: p.feeAccounts
  | .start _ (.getFeeCalculator (some version)) => version ≤ MAX_UINT32
  | .start _ _ => True
  | .answerGov i conn | .answerFee i conn =>
      ∀ c ∈ s.calls i, ∃ p ∈ s.programs.drop c.since, p.Reports accs conn
  | .estimated _ => True

/-! ## What was read was there -/

end FeeClient

/-- What the fees of the governor and its rate make of the calculator. -/
def FeeProgram.calculator (p : FeeProgram) : FeeCalculator :=
  { feeData := p.governor.program_fee, minBatchingRate := p.governor.commitment_batching_rate }

/-- Some state of the program has the fee account. -/
def HasFee (programs : List FeeProgram) (version : ℕ) (fee : ProgramFee) : Prop :=
  ∃ p ∈ programs, p.feeAccounts[version]?.map FeeAccBorsh.program_fee = some fee

/-- The error for a version that has no fee account. -/
def feeNotFound (accs : ProgramAccounts) (version : ℕ) : Failure :=
  .error (COULD_NOT_FIND_ACCOUNT ((ElusivPDA.fee version).key accs).toBase58)

section Programs

variable {accs : ProgramAccounts} {programs : List FeeProgram} {version : ℕ} {fee : ProgramFee}

lemma HasFee.append (h : HasFee programs version fee) (p : FeeProgram) :
    HasFee (programs ++ [p]) version fee := by
  obtain ⟨p', hp', hfee⟩ := h
  exact ⟨p', List.mem_append_left _ hp', hfee⟩

lemma HasFee.governor {p : FeeProgram} (hp : p ∈ programs) :
    HasFee programs p.governor.fee_version p.governor.program_fee := ⟨p, hp, p.current⟩

/-- Fee accounts stay: the latest state has them all. -/
lemma HasFee.latest {p : FeeProgram} (hadded : (programs ++ [p]).Pairwise fun p p' =>
    p.feeAccounts <+: p'.feeAccounts) (h : HasFee (programs ++ [p]) version fee) :
    p.feeAccounts[version]?.map FeeAccBorsh.program_fee = some fee := by
  obtain ⟨p', hp', hfee⟩ := h
  rcases List.mem_append.mp hp' with hold | hlast
  · have hprefix := (List.pairwise_append.mp hadded).2.2 p' hold p List.mem_cons_self
    obtain ⟨account, haccount, hfee⟩ := Option.map_eq_some_iff.mp hfee
    obtain ⟨added, hadded⟩ := hprefix
    rw [← hadded, List.getElem?_append_left (List.getElem?_eq_some_iff.mp haccount).1, haccount,
      Option.map_some, hfee]
  · obtain rfl := List.mem_singleton.mp hlast
    exact hfee

/-- What a call has was reported after it started. -/
structure FeeCall.Ok (accs : ProgramAccounts) (programs : List FeeProgram) (c : FeeCall) : Prop where
  since_lt : c.since < programs.length
  version_le : ∀ version, c.request = .getFeeCalculator (some version) → version ≤ MAX_UINT32
  gov : ∀ govData, c.govData = some govData → ∃ p ∈ programs.drop c.since, govData = .ok p.governor
  fee : ∀ version account, c.request = .getFeeCalculator (some version) → c.feeData = some (.ok account) →
    HasFee programs version account.program_fee
  missing : ∀ version failure, c.request = .getFeeCalculator (some version) →
    c.feeData = some (.error failure) → failure = feeNotFound accs version ∧
      ∃ p ∈ programs.drop c.since, p.feeAccounts[version]? = none
  cached : ∀ calculator, c.feeCalculatorCached = some calculator → ∃ p ∈ programs, calculator = p.calculator

/-- A call that is done has found the fees of its version, or its version was missing. -/
lemma FeeCall.Ok.getFeeCalculator_cases {c : FeeCall} (hc : c.Ok accs programs) {feeVersion : Option ℕ}
    (hrequest : c.request = .getFeeCalculator feeVersion) {res : Except Failure (FeeCalculator × FeeVersionData)}
    (h : c.getFeeCalculator feeVersion = some res) :
    (∃ p ∈ programs.drop c.since, ∃ fee, HasFee programs (feeVersion.getD p.governor.fee_version) fee ∧
      res = .ok (⟨fee, p.governor.commitment_batching_rate⟩,
        ⟨feeVersion.getD p.governor.fee_version, p.governor.commitment_batching_rate⟩)) ∨
    ∃ version, feeVersion = some version ∧ res = .error (feeNotFound accs version) ∧
      ∃ p ∈ programs.drop c.since, p.feeAccounts[version]? = none := by
  cases feeVersion with
  | none =>
      obtain ⟨govData, hgov, rfl⟩ := Option.map_eq_some_iff.mp h
      obtain ⟨p, hp, rfl⟩ := hc.gov govData hgov
      exact .inl ⟨p, hp, p.governor.program_fee, HasFee.governor (List.mem_of_mem_drop hp), rfl⟩
  | some version =>
      rw [FeeCall.getFeeCalculator] at h
      cases hfee : c.feeData with
      | none =>
          rw [hfee] at h
          cases h
      | some feeData =>
          rw [hfee] at h
          cases feeData with
          | error failure =>
              obtain ⟨rfl, hmissing⟩ := hc.missing version failure hrequest hfee
              exact .inr ⟨version, rfl, (Option.some.inj h).symm, hmissing⟩
          | ok account =>
              obtain ⟨govData, hgov, rfl⟩ := Option.map_eq_some_iff.mp h
              obtain ⟨p, hp, rfl⟩ := hc.gov govData hgov
              exact .inl ⟨p, hp, account.program_fee, hc.fee version account hrequest hfee, rfl⟩

lemma mem_drop_append {p p' : FeeProgram} {since : ℕ} (h : p' ∈ programs.drop since) :
    p' ∈ (programs ++ [p]).drop since := by
  rw [List.drop_append]
  exact List.mem_append_left _ h

lemma FeeCall.Ok.append {c : FeeCall} (h : c.Ok accs programs) (p : FeeProgram) :
    c.Ok accs (programs ++ [p]) where
  since_lt := by
    have hlt := h.since_lt
    rw [List.length_append]
    omega
  version_le := h.version_le
  gov govData hgov := by
    obtain ⟨p', hp', heq⟩ := h.gov govData hgov
    exact ⟨p', mem_drop_append hp', heq⟩
  fee version account hrequest hfee := (h.fee version account hrequest hfee).append p
  missing version failure hrequest hfee := by
    obtain ⟨heq, p', hp', hnone⟩ := h.missing version failure hrequest hfee
    exact ⟨heq, p', mem_drop_append hp', hnone⟩
  cached calculator hcached := by
    obtain ⟨p', hp', heq⟩ := h.cached calculator hcached
    exact ⟨p', List.mem_append_left _ hp', heq⟩

end Programs

namespace FeeClient

variable {ι : Type} {accs : ProgramAccounts} {s s' : FeeClient ι}

structure Ok (accs : ProgramAccounts) (s : FeeClient ι) : Prop where
  nonempty : s.programs ≠ []
  added : s.programs.Pairwise fun p p' => p.feeAccounts <+: p'.feeAccounts
  cachedFee : ∀ version account, s.cachedFee version = some account →
    HasFee s.programs version account.program_fee
  cached : ∀ calculator, s.feeCalculatorCached = some calculator →
    ∃ p ∈ s.programs, calculator = p.calculator
  calls : ∀ i c, s.calls i = some c → c.Ok accs s.programs

lemma ok_start (p : FeeProgram) : (start p : FeeClient ι).Ok accs where
  nonempty := List.cons_ne_nil _ _
  added := List.pairwise_singleton _ _
  cachedFee version account h := by cases h
  cached calculator h := by cases h
  calls i c h := by cases h

/-- A fee account of the program is kept. -/
lemma Ok.keepFee (hs : s.Ok accs) {version : ℕ} {account : FeeAccBorsh}
    (hfee : HasFee s.programs version account.program_fee) :
    ({ s with cachedFee := Function.update s.cachedFee version (some account) } : FeeClient ι).Ok accs where
  nonempty := hs.nonempty
  added := hs.added
  cachedFee version' account' h := by
    have h : Function.update s.cachedFee version (some account) version' = some account' := h
    rw [Function.update_apply] at h
    split_ifs at h with heq
    · obtain rfl := Option.some.inj h
      rwa [heq]
    · exact hs.cachedFee version' account' h
  cached := hs.cached
  calls := hs.calls

lemma Ok.newCall (hs : s.Ok accs) {request : FeeRequest}
    (hversion : ∀ version, request = .getFeeCalculator (some version) → version ≤ MAX_UINT32) :
    (s.newCall request).Ok accs s.programs where
  since_lt := by
    have hpos := List.length_pos_iff.mpr hs.nonempty
    show s.programs.length - 1 < s.programs.length
    omega
  version_le := hversion
  gov govData h := by cases h
  fee version account hrequest hfee := by
    obtain rfl : request = .getFeeCalculator (some version) := hrequest
    obtain ⟨account', hcached, heq⟩ := Option.map_eq_some_iff.mp hfee
    obtain rfl := Except.ok.inj heq
    exact hs.cachedFee version account' hcached
  missing version failure hrequest hfee := by
    obtain rfl : request = .getFeeCalculator (some version) := hrequest
    obtain ⟨account', -, heq⟩ := Option.map_eq_some_iff.mp hfee
    cases heq
  cached calculator h := by
    have h : (if request = .estimate then s.feeCalculatorCached else none) = some calculator := h
    split_ifs at h
    exact hs.cached calculator h

/-- The fee calculator of an estimate is that of some state of the program. -/
lemma Ok.estimateCalculator (hs : s.Ok accs) {i : ι} {c : FeeCall} (hcall : s.calls i = some c)
    {calculator : FeeCalculator} (h : c.estimateCalculator = some (.ok calculator)) :
    ∃ p ∈ s.programs, calculator = p.calculator := by
  have hc := hs.calls i c hcall
  rw [FeeCall.estimateCalculator] at h
  cases hcached : c.feeCalculatorCached with
  | some cached =>
      rw [hcached] at h
      obtain rfl := Except.ok.inj (Option.some.inj h)
      exact hc.cached cached hcached
  | none =>
      rw [hcached] at h
      cases hgov : c.govData with
      | none =>
          rw [FeeCall.getFeeCalculator, hgov] at h
          cases h
      | some govData =>
          obtain ⟨p, hp, rfl⟩ := hc.gov govData hgov
          rw [FeeCall.getFeeCalculator, hgov] at h
          obtain rfl := Except.ok.inj (Option.some.inj h)
          exact ⟨p, List.mem_of_mem_drop hp, rfl⟩

section Steps

variable [DecidableEq ι]

/-- Another call is set. -/
lemma Ok.setCall (hs : s.Ok accs) {c : FeeCall} (hc : c.Ok accs s.programs) (i : ι) :
    (s.setCall i c).Ok accs where
  nonempty := hs.nonempty
  added := hs.added
  cachedFee := hs.cachedFee
  cached := hs.cached
  calls j c' hc' := by
    have hc' : Function.update s.calls i (some c) j = some c' := hc'
    rw [Function.update_apply] at hc'
    split_ifs at hc'
    · obtain rfl := Option.some.inj hc'
      exact hc
    · exact hs.calls j c' hc'

lemma Ok.onGovData (hs : s.Ok accs) {i : ι} {c : FeeCall} (hcall : s.calls i = some c) {p : FeeProgram}
    (hp : p ∈ s.programs.drop c.since) : (s.onGovData i c (.ok p.governor)).Ok accs := by
  have hc := hs.calls i c hcall
  have hread : FeeCall.Ok accs s.programs { c with govData := some (.ok p.governor) } := by
    refine ⟨hc.since_lt, hc.version_le, fun govData h => ?_, hc.fee, hc.missing, hc.cached⟩
    obtain rfl := Option.some.inj h
    exact ⟨p, hp, rfl⟩
  rw [FeeClient.onGovData]
  split_ifs
  · exact (hs.setCall hread i).keepFee (HasFee.governor (List.mem_of_mem_drop hp))
  · exact hs.setCall hread i

lemma Ok.onFeeData (hs : s.Ok accs) {i : ι} {c : FeeCall} (hcall : s.calls i = some c) {version : ℕ}
    (hrequest : c.request = .getFeeCalculator (some version)) {p : FeeProgram}
    (hp : p ∈ s.programs.drop c.since) {conn : AccountConnection} (hreports : p.Reports accs conn) :
    (s.onFeeData i c version
      (getProgramInfo feeAccBorsh conn ((ElusivPDA.fee version).key accs))).Ok accs := by
  have hc := hs.calls i c hcall
  rw [hreports.getData_fee (hc.version_le version hrequest)]
  cases haccount : p.feeAccounts[version]? with
  | some account =>
      have hfee : HasFee s.programs version account.program_fee :=
        ⟨p, List.mem_of_mem_drop hp, by rw [haccount, Option.map_some]⟩
      have hread : FeeCall.Ok accs s.programs { c with feeData := some (.ok account) } := by
        refine ⟨hc.since_lt, hc.version_le, hc.gov, ?_, (fun _ _ _ hfailure => nomatch hfailure), hc.cached⟩
        intro version' account' hrequest' hfee'
        obtain rfl : account = account' := Except.ok.inj (Option.some.inj hfee')
        have heq : FeeRequest.getFeeCalculator (some version) = .getFeeCalculator (some version') :=
          hrequest.symm.trans hrequest'
        obtain rfl := Option.some.inj (FeeRequest.getFeeCalculator.inj heq)
        exact hfee
      exact (hs.setCall hread i).keepFee hfee
  | none =>
      refine hs.setCall (c := { c with feeData := some (.error (feeNotFound accs version)) }) ?_ i
      refine ⟨hc.since_lt, hc.version_le, hc.gov, (fun _ _ _ hfee => nomatch hfee), ?_, hc.cached⟩
      intro version' failure hrequest' hfailure
      have heq : FeeRequest.getFeeCalculator (some version) = .getFeeCalculator (some version') :=
        hrequest.symm.trans hrequest'
      obtain rfl := Option.some.inj (FeeRequest.getFeeCalculator.inj heq)
      obtain rfl := Except.error.inj (Option.some.inj hfailure)
      exact ⟨rfl, p, hp, haccount⟩

lemma Ok.step (hs : s.Ok accs) {e : FeeEvent ι} (he : s.Answered accs e)
    (hstep : s.step accs e = some s') : s'.Ok accs := by
  cases e with
  | change p =>
      obtain rfl := Option.some.inj hstep
      refine ⟨List.append_ne_nil_of_left_ne_nil hs.nonempty _, ?_, fun version account h =>
        (hs.cachedFee version account h).append p, fun calculator h => ?_, fun i c h => (hs.calls i c h).append p⟩
      · refine List.pairwise_append.mpr ⟨hs.added, List.pairwise_singleton _ _, fun p' hp' q hq => ?_⟩
        obtain rfl := List.mem_singleton.mp hq
        obtain ⟨older, latest, heq⟩ := List.eq_nil_or_concat s.programs |>.resolve_left hs.nonempty
        rw [List.concat_eq_append] at heq
        have hgrows : latest.feeAccounts <+: q.feeAccounts := he latest (by simp [heq])
        rw [heq] at hp'
        rcases List.mem_append.mp hp' with hold | hlast
        · have hadded := hs.added
          rw [heq] at hadded
          exact ((List.pairwise_append.mp hadded).2.2 p' hold latest List.mem_cons_self).trans hgrows
        · rwa [List.mem_singleton.mp hlast]
      · obtain ⟨p', hp', heq⟩ := hs.cached calculator h
        exact ⟨p', List.mem_append_left _ hp', heq⟩
  | start i request =>
      rw [FeeClient.step] at hstep
      split at hstep
      · obtain rfl := Option.some.inj hstep
        refine hs.setCall (hs.newCall fun version hrequest => ?_) i
        rw [hrequest] at he
        exact he
      · cases hstep
  | answerGov i conn =>
      obtain ⟨c, hcall, hstep⟩ := Option.bind_eq_some_iff.mp hstep
      obtain ⟨p, hp, hreports⟩ := he c hcall
      split_ifs at hstep
      obtain rfl := Option.some.inj hstep
      rw [hreports.getData_governor]
      exact hs.onGovData hcall hp
  | answerFee i conn =>
      obtain ⟨c, hcall, hstep⟩ := Option.bind_eq_some_iff.mp hstep
      obtain ⟨p, hp, hreports⟩ := he c hcall
      split at hstep
      · rename_i version hrequest hunread
        obtain rfl := Option.some.inj hstep
        exact hs.onFeeData hcall hrequest hp hreports
      · cases hstep
  | estimated i =>
      obtain ⟨c, hcall, hstep⟩ := Option.bind_eq_some_iff.mp hstep
      split at hstep
      · rename_i calculator hrequest hestimate
        obtain rfl := Option.some.inj hstep
        refine ⟨hs.nonempty, hs.added, hs.cachedFee, fun calculator' h => ?_, hs.calls⟩
        obtain rfl := Option.some.inj h
        exact hs.estimateCalculator hcall hestimate
      · cases hstep

end Steps

/-! ## What is returned -/

/-- The fee account of a version, as the program has it now. -/
def latestFee (s : FeeClient ι) (version : ℕ) : Option ProgramFee := do
  let latest ← s.programs.getLast?
  latest.feeAccounts[version]?.map FeeAccBorsh.program_fee

/-- What the calls of a client tell about the fees of the program. -/
structure Labelled (accs : ProgramAccounts) (s : FeeClient ι) : Prop where
  /-- A calculator has the fees of the version that it comes with, and a rate that the governor had during the
  call; without a version asked for, the version is that of the governor at the same moment. -/
  calculator : ∀ i c feeVersion calculator feeVersionData, s.calls i = some c →
    c.request = .getFeeCalculator feeVersion →
    c.getFeeCalculator feeVersion = some (.ok (calculator, feeVersionData)) →
      s.latestFee feeVersionData.feeVersion = some calculator.feeData ∧
        ∃ p ∈ s.programs.drop c.since,
          feeVersionData = ⟨feeVersion.getD p.governor.fee_version, p.governor.commitment_batching_rate⟩ ∧
          calculator.minBatchingRate = p.governor.commitment_batching_rate
  /-- Only a version that the program did not have at some moment of the call is refused. -/
  refuses : ∀ i c feeVersion failure, s.calls i = some c → c.request = .getFeeCalculator feeVersion →
    c.getFeeCalculator feeVersion = some (.error failure) → ∃ version, feeVersion = some version ∧
      failure = feeNotFound accs version ∧ ∃ p ∈ s.programs.drop c.since, p.feeAccounts[version]? = none
  currentVersion : ∀ i c res, s.calls i = some c → c.getCurrentFeeVersion = some res →
    ∃ p ∈ s.programs.drop c.since, res = .ok p.governor.fee_version
  /-- An estimate has the fees and the rate of one moment, which may be before the call. -/
  estimate : ∀ i c calculator, s.calls i = some c → c.estimateCalculator = some (.ok calculator) →
    ∃ p ∈ s.programs, calculator = p.calculator
  cachedFee : ∀ version account, s.cachedFee version = some account →
    s.latestFee version = some account.program_fee

lemma Ok.latestFee (hs : s.Ok accs) {version : ℕ} {fee : ProgramFee} (h : HasFee s.programs version fee) :
    s.latestFee version = some fee := by
  obtain ⟨older, latest, heq⟩ := List.eq_nil_or_concat s.programs |>.resolve_left hs.nonempty
  rw [List.concat_eq_append] at heq
  have hadded := hs.added
  rw [heq] at hadded h
  rw [FeeClient.latestFee, heq, List.getLast?_append_of_ne_nil _ (List.cons_ne_nil _ _)]
  exact h.latest hadded

lemma Ok.entries (hs : s.Ok accs) : Labelled accs s where
  calculator i c feeVersion calculator feeVersionData hcall hrequest h := by
    rcases (hs.calls i c hcall).getFeeCalculator_cases hrequest h with
      ⟨p, hp, fee, hfee, hres⟩ | ⟨version, -, hres, -⟩
    · obtain ⟨rfl, rfl⟩ := Prod.mk.inj (Except.ok.inj hres)
      exact ⟨hs.latestFee hfee, p, hp, rfl, rfl⟩
    · cases hres
  refuses i c feeVersion failure hcall hrequest h := by
    rcases (hs.calls i c hcall).getFeeCalculator_cases hrequest h with
      ⟨p, -, fee, -, hres⟩ | ⟨version, hversion, hres, hmissing⟩
    · cases hres
    · exact ⟨version, hversion, Except.error.inj hres, hmissing⟩
  currentVersion i c res hcall h := by
    obtain ⟨govData, hgov, rfl⟩ := Option.map_eq_some_iff.mp h
    obtain ⟨p, hp, rfl⟩ := (hs.calls i c hcall).gov govData hgov
    exact ⟨p, hp, rfl⟩
  estimate _ _ _ hcall h := hs.estimateCalculator hcall h
  cachedFee version account h := hs.latestFee (hs.cachedFee version account h)

/-- **A fee calculator comes with its version**, in every run of calls that overlap each other and changes of
the program. -/
theorem labelled [DecidableEq ι] (accs : ProgramAccounts) (p : FeeProgram) {es : List (FeeEvent ι)}
    (hrun : run (step accs) (start p) es = some s)
    (hanswered : Allowed (step accs) (Answered accs) (start p) es) : Labelled accs s :=
  (run_invariant (fun _ _ _ hs he hstep => Ok.step hs he hstep) (ok_start p) hanswered hrun).entries

/-! ### A new version during a call -/

/-- The seeds, filled up to 31 bytes, and their length. -/
def paddedKey (bytes : Bytes) : PublicKey where
  bytes := (bytes ++ List.replicate 31 0).take 31 ++ [UInt8.ofNat bytes.length]
  length_eq := by simp

lemma injOn_paddedKey : Set.InjOn paddedKey {bytes | bytes.length < 32} := by
  intro bytes hbytes bytes' hbytes' heq
  have hbytes : bytes.length < 32 := hbytes
  have hbytes' : bytes'.length < 32 := hbytes'
  obtain ⟨htake, hlast⟩ := List.append_inj' (PublicKey.mk.inj heq) rfl
  have hlength : bytes.length = bytes'.length := by
    have h := congrArg UInt8.toNat (List.cons.inj hlast).1
    rw [UInt8.toNat_ofNat', UInt8.toNat_ofNat'] at h
    omega
  have hshort := congrArg (List.take bytes.length) htake
  rw [List.take_take, List.take_take, Nat.min_eq_left (by omega), List.take_left] at hshort
  rw [hshort, hlength, List.take_left]

def paddedAccounts : ProgramAccounts :=
  { plainAccounts with
    generateElusivPDAFrom := fun seeds offset => (paddedKey (formatElusivPDASeed seeds offset).flatten, 0) }

lemma reports_padded (p : FeeProgram) : p.Reports paddedAccounts (p.connection paddedAccounts) :=
  p.reports_connection fun hvalid hvalid' h =>
    ElusivPDA.key_injective (fun _ _ => rfl) injOn_paddedKey hvalid hvalid' h

/-- A fee account that asks for some lamports a transaction. -/
def lamportsFee (lamports : ℕ) : FeeAccBorsh :=
  { pda_data := ⟨255, 0⟩, program_fee := ⟨lamports, 0, 0, 0, 0, 0, 0, 4⟩ }

lemma fits_lamportsFee {lamports : ℕ} (h : lamports < 256 ^ 8) : feeAccBorsh.Fits (lamportsFee lamports) := by
  refine ⟨⟨?_, ?_⟩, h, ?_⟩
  · show 255 < 256 ^ 1
    decide
  · show 0 < 256 ^ 1
    decide
  · show 0 < 256 ^ 8 ∧ 0 < 256 ^ 8 ∧ 0 < 256 ^ 8 ∧ 0 < 256 ^ 8 ∧ 0 < 256 ^ 8 ∧ 0 < 256 ^ 8 ∧ 4 < 256 ^ 8
    decide

/-- The program with the fees of the list, the last of them current. -/
def feeProgram (older : List ℕ) (lamports rate : ℕ) (holder : ∀ x ∈ older ++ [lamports], x < 256 ^ 8)
    (hlength : older.length < 256 ^ 4) (hrate : rate < 256 ^ 4) : FeeProgram where
  governor := ⟨⟨255, 0⟩, older.length, (lamportsFee lamports).program_fee, rate, 0⟩
  feeAccounts := (older ++ [lamports]).map lamportsFee
  fits_governor := by
    obtain ⟨hpda, hfee⟩ := fits_lamportsFee (holder lamports (by simp))
    exact ⟨hpda, hlength, hfee, hrate, show 0 < 256 ^ 4 by decide⟩
  fits_fee account h := by
    obtain ⟨x, hx, rfl⟩ := List.mem_map.mp h
    exact fits_lamportsFee (holder x hx)
  length_le := by
    rw [List.length_map, List.length_append]
    exact hlength
  current := by simp

def oneVersion : FeeProgram := feeProgram [] 5000 0 (by decide) (by decide) (by decide)

def twoVersions : FeeProgram := feeProgram [5000] 6000 2 (by decide) (by decide) (by decide)

/-- The governor is read before the change, and answers after it; then the new version is asked for. -/
def upgradeRun : List (FeeEvent Bool) :=
  [.start false (.getFeeCalculator none), .change twoVersions,
    .answerGov false (oneVersion.connection paddedAccounts), .start true (.getFeeCalculator (some 1)),
    .answerFee true (twoVersions.connection paddedAccounts),
    .answerGov true (twoVersions.connection paddedAccounts)]

lemma answered_upgradeRun :
    Allowed (step paddedAccounts) (Answered paddedAccounts) (start oneVersion) upgradeRun := by
  refine ⟨trivial, fun s hs => ?_⟩
  obtain rfl := Option.some.inj hs
  refine ⟨fun latest hlatest => ?_, fun s hs => ?_⟩
  · obtain rfl := Option.some.inj hlatest
    exact ⟨[lamportsFee 6000], rfl⟩
  obtain rfl := Option.some.inj hs
  refine ⟨fun c hc => ?_, fun s hs => ?_⟩
  · obtain rfl := Option.some.inj hc
    exact ⟨oneVersion, List.mem_cons_self, reports_padded _⟩
  obtain rfl := Option.some.inj hs
  refine ⟨show 1 ≤ MAX_UINT32 by decide, fun s hs => ?_⟩
  obtain rfl := Option.some.inj hs
  refine ⟨fun c hc => ?_, fun s hs => ?_⟩
  · obtain rfl := Option.some.inj hc
    exact ⟨twoVersions, List.mem_cons_self, reports_padded _⟩
  obtain rfl := Option.some.inj hs
  refine ⟨fun c hc => ?_, fun _ _ => trivial⟩
  obtain rfl := Option.some.inj hc
  exact ⟨twoVersions, List.mem_cons_self, reports_padded _⟩

/-- The first call has the old fees and the old version, the second one the new ones. -/
theorem labelled_upgradeRun : ∃ s, run (step paddedAccounts) (start oneVersion) upgradeRun = some s ∧
    (s.calls false).bind (fun c => c.getFeeCalculator none)
      = some (.ok (⟨(lamportsFee 5000).program_fee, 0⟩, ⟨0, 0⟩)) ∧
    (s.calls true).bind (fun c => c.getFeeCalculator (some 1))
      = some (.ok (⟨(lamportsFee 6000).program_fee, 2⟩, ⟨1, 2⟩)) ∧ Labelled paddedAccounts s := by
  have hsome : ((run (step paddedAccounts) (start oneVersion) upgradeRun).map fun s =>
      ((s.calls false).bind (fun c => c.getFeeCalculator none),
        (s.calls true).bind fun c => c.getFeeCalculator (some 1)))
      = some (some (.ok (⟨(lamportsFee 5000).program_fee, 0⟩, ⟨0, 0⟩)),
        some (.ok (⟨(lamportsFee 6000).program_fee, 2⟩, ⟨1, 2⟩))) := by
    decide +kernel
  obtain ⟨s, hrun, hcalls⟩ := Option.map_eq_some_iff.mp hsome
  obtain ⟨hfirst, hsecond⟩ := Prod.mk.inj hcalls
  exact ⟨s, hrun, hfirst, hsecond, labelled paddedAccounts oneVersion hrun answered_upgradeRun⟩

end FeeClient

end ElusivSdk
