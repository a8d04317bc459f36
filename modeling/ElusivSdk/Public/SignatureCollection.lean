import ElusivSdk.Library.Paging
import ElusivSdk.Library.Program
import ElusivSdk.Types

/-!
# The signatures of the last time

The viewer counts transactions by the signatures of the fee collector, or of its account for one token.
It reads them in pages from the newest on and stops at the first page whose oldest signature lies outside
the time window.

* `SignatureHistory` — what the node answers: every address has its signatures from the newest on.
* `getElusivSigsLastTime` — the translated method.  For `LAMPORTS` there is no account of its own, so the
  signatures of every other token are collected and taken away.
* **`getElusivSigsLastTime_exact_iff`** — when the signatures of the window are returned exactly.  A block
  time of 0 counts as missing.
-/

namespace ElusivSdk

open Paging Program

/-- A signature with the time of its block. -/
structure TimedSignatureInfo extends ConfirmedSignatureInfo where
  blockTime : Option ℤ
deriving DecidableEq

/-- The signatures of every address, from the newest on, and how many the node returns at once.  The time
of a block is known, and it belongs to the signature. -/
structure SignatureHistory where
  pageSize : ℕ
  pageSize_pos : 0 < pageSize
  signaturesFor : PublicKey → List TimedSignatureInfo
  nodup : ∀ address, ((signaturesFor address).map fun s => s.signature).Nodup
  timed : ∀ address, ∀ s ∈ signaturesFor address, s.blockTime ≠ none
  descending : ∀ address, (signaturesFor address).Pairwise fun s s' =>
    ∀ t ∈ s.blockTime, ∀ t' ∈ s'.blockTime, t' ≤ t
  blockTime_eq : ∀ {address address' : PublicKey} {s s' : TimedSignatureInfo},
    s ∈ signaturesFor address → s' ∈ signaturesFor address' → s.signature = s'.signature →
      s.blockTime = s'.blockTime

/-- The block time is inside the window. -/
def TimedSignatureInfo.inWindow (untilTimeSec : ℤ) (s : TimedSignatureInfo) : Bool :=
  s.blockTime.any fun t => untilTimeSec < t

namespace SignatureHistory

variable (history : SignatureHistory)

def getConfirmedSignaturesForAddress2 (address : PublicKey) (before : Option String) :
    List TimedSignatureInfo :=
  pageAfter (fun s : TimedSignatureInfo => s.signature) history.pageSize before
    (history.signaturesFor address)

/-- `s.blockTime && s.blockTime > untilTimeSec`. -/
def isRecent (untilTimeSec : ℤ) (s : TimedSignatureInfo) : Bool :=
  match s.blockTime with
  | none => false
  | some blockTime => blockTime != 0 && decide (untilTimeSec < blockTime)

/-- The loop over the pages. -/
def collectSigs (feeCollector : PublicKey) (untilTimeSec : ℤ) :
    ℕ → Option TimedSignatureInfo → List TimedSignatureInfo → Except Failure (List TimedSignatureInfo)
  | 0, _, _ => .error .outOfFuel
  | fuel + 1, oldestSig, totalSigs =>
      let sigs := history.getConfirmedSignaturesForAddress2 feeCollector
        (oldestSig.map fun s => s.signature)
      let oldestSig := sigs.getLast?
      let filteredSigs := sigs.filter (isRecent untilTimeSec)
      let oldestFilteredSig := filteredSigs.getLast?
      let totalSigs := totalSigs ++ filteredSigs
      if oldestFilteredSig ≠ none ∧
          oldestFilteredSig.map (fun s => s.signature) = oldestSig.map fun s => s.signature then
        collectSigs feeCollector untilTimeSec fuel oldestSig totalSigs
      else .ok totalSigs

/-! ## The loop -/

section Loop

variable {history} {address : PublicKey} {untilTimeSec : ℤ}

/-- A window is a selection of the first signatures. -/
lemma leading_inWindow (history : SignatureHistory) (address : PublicKey) (untilTimeSec : ℤ) :
    Leading (TimedSignatureInfo.inWindow untilTimeSec) (history.signaturesFor address) := by
  refine (history.descending address).imp_of_mem fun {s s'} hs hs' hle hin => ?_
  rw [TimedSignatureInfo.inWindow, Option.any_eq_true] at hin ⊢
  obtain ⟨t', ht', hlt⟩ := hin
  obtain ⟨t, ht⟩ := Option.ne_none_iff_exists'.mp (history.timed address s hs)
  have := hle t ht t' ht'
  refine ⟨t, ht, ?_⟩
  simp only [decide_eq_true_eq] at hlt ⊢
  omega

/-- Only the block time 0 keeps a signature of the window from being collected. -/
lemma isRecent_eq {s : TimedSignatureInfo} (hzero : untilTimeSec < 0 → s.blockTime ≠ some 0) :
    isRecent untilTimeSec s = s.inWindow untilTimeSec := by
  rw [isRecent, TimedSignatureInfo.inWindow]
  cases ht : s.blockTime with
  | none => rfl
  | some t =>
      rw [ht] at hzero
      rw [Option.any_some, Bool.and_eq_right_iff_imp]
      intro hlt
      simp only [bne_iff_ne, ne_eq, decide_eq_true_eq] at hlt ⊢
      rintro rfl
      exact hzero hlt rfl

lemma blockTime_ne_zero_of_isRecent {s : TimedSignatureInfo} (h : isRecent untilTimeSec s = true) :
    s.blockTime ≠ some 0 := by
  intro hzero
  rw [isRecent, hzero] at h
  simp at h

/-- A page whose last signature is not collected has the rest of the window in it. -/
lemma filter_take_of_stop {rest : List TimedSignatureInfo}
    (hlead : Leading (TimedSignatureInfo.inWindow untilTimeSec) rest)
    (hzero : untilTimeSec < 0 → ∀ s ∈ rest, s.blockTime ≠ some 0)
    (hstop : ¬ (((rest.take history.pageSize).filter (isRecent untilTimeSec)).getLast? ≠ none ∧
      ((rest.take history.pageSize).filter (isRecent untilTimeSec)).getLast?.map (fun s => s.signature)
        = (rest.take history.pageSize).getLast?.map fun s => s.signature)) :
    (rest.take history.pageSize).filter (TimedSignatureInfo.inWindow untilTimeSec)
      = rest.filter (TimedSignatureInfo.inWindow untilTimeSec) := by
  have hsplit : rest.take history.pageSize ++ rest.drop history.pageSize = rest :=
    List.take_append_drop _ _
  cases hlast : (rest.take history.pageSize).getLast? with
  | none =>
      -- an empty page: nothing is left
      have hrest : rest = [] := by
        rcases List.take_eq_nil_iff.mp (List.getLast?_eq_none_iff.mp hlast) with hsize | hrest
        · exact absurd hsize (Nat.ne_of_gt history.pageSize_pos)
        · exact hrest
      rw [hrest, List.take_nil]
  | some oldest =>
      have hout : oldest.inWindow untilTimeSec = false := by
        by_contra hin
        rw [Bool.not_eq_false] at hin
        have hkept : isRecent untilTimeSec oldest = true := by
          rw [isRecent_eq fun hneg => hzero hneg oldest
            (List.mem_of_mem_take (List.mem_of_getLast? hlast))]
          exact hin
        obtain ⟨front, hfront⟩ := List.getLast?_eq_some_iff.mp hlast
        refine hstop ?_
        rw [hfront, List.filter_append, List.filter_cons_of_pos hkept, List.filter_nil,
          List.getLast?_concat, List.getLast?_concat]
        exact ⟨Option.some_ne_none _, rfl⟩
      rw [← hsplit] at hlead
      rw [← hlead.filter_append_of_last hlast hout, hsplit]

/-- What the loop collects from the rest of the signatures. -/
lemma collectSigs_spec : ∀ (fuel : ℕ) (read rest total : List TimedSignatureInfo),
    history.signaturesFor address = read ++ rest → rest.length < fuel →
      ∃ res, history.collectSigs address untilTimeSec fuel read.getLast? total = .ok (total ++ res) ∧
        (∀ s ∈ res, s ∈ rest ∧ isRecent untilTimeSec s = true) ∧
        ((untilTimeSec < 0 → ∀ s ∈ rest, s.blockTime ≠ some 0) →
          res = rest.filter (TimedSignatureInfo.inWindow untilTimeSec))
  | 0, _, _, _, _, hfuel => absurd hfuel (Nat.not_lt_zero _)
  | fuel + 1, read, rest, total, heq, hfuel => by
      set page := rest.take history.pageSize with hpage
      have hsigs : history.getConfirmedSignaturesForAddress2 address
          (read.getLast?.map fun s => s.signature) = page := by
        have hd := history.nodup address
        rw [heq] at hd
        rw [getConfirmedSignaturesForAddress2, heq]
        exact pageAfter_append hd
      have hsplit : page ++ rest.drop history.pageSize = rest := List.take_append_drop _ _
      have hlead : Leading (TimedSignatureInfo.inWindow untilTimeSec) rest := by
        have hall := history.leading_inWindow address untilTimeSec
        rw [heq] at hall
        exact (List.pairwise_append.mp hall).2.1
      -- of the page everything recent is taken; what that is without a block time of 0
      have hrecent : (untilTimeSec < 0 → ∀ s ∈ rest, s.blockTime ≠ some 0) →
          page.filter (isRecent untilTimeSec)
            = page.filter (TimedSignatureInfo.inWindow untilTimeSec) := fun hzero =>
        List.filter_congr fun s hs => isRecent_eq fun hneg => hzero hneg s (List.mem_of_mem_take hs)
      have hpart : ∀ s ∈ page.filter (isRecent untilTimeSec),
          s ∈ rest ∧ isRecent untilTimeSec s = true := fun s hs =>
        ⟨List.mem_of_mem_take (List.mem_filter.mp hs).1, (List.mem_filter.mp hs).2⟩
      rw [collectSigs, hsigs]
      split_ifs with hmore
      · have hpne : page ≠ [] := fun hnil => by
          rw [hnil] at hmore
          exact hmore.1 rfl
        have hlast : (read ++ page).getLast? = page.getLast? := List.getLast?_append_of_ne_nil _ hpne
        have hshorter : (rest.drop history.pageSize).length < fuel := by
          have hne : rest ≠ [] := fun hnil => hpne (by rw [hpage, hnil, List.take_nil])
          have hlen := List.length_pos_iff.mpr hne
          have hsize := history.pageSize_pos
          rw [List.length_drop]
          omega
        obtain ⟨res, hok, hmem, hexact⟩ := collectSigs_spec fuel (read ++ page)
          (rest.drop history.pageSize) (total ++ page.filter (isRecent untilTimeSec))
          (by rw [heq, List.append_assoc, hsplit]) hshorter
        rw [hlast, List.append_assoc] at hok
        refine ⟨_, hok, fun s hs => ?_, fun hzero => ?_⟩
        · rcases List.mem_append.mp hs with hs | hs
          · exact hpart s hs
          · exact ⟨List.mem_of_mem_drop (hmem s hs).1, (hmem s hs).2⟩
        · rw [hrecent hzero, hexact fun hneg s hs => hzero hneg s (List.mem_of_mem_drop hs),
            ← List.filter_append, hsplit]
      · refine ⟨_, rfl, hpart, fun hzero => ?_⟩
        rw [hrecent hzero]
        exact filter_take_of_stop hlead hzero hmore

end Loop

end SignatureHistory

/-- What the viewer knows besides: the addresses, and the clock. -/
structure SignatureViewer where
  history : SignatureHistory
  elusivFeeCollectorAddress : PublicKey
  getAssociatedTokenAcc : PublicKey → TokenType → PublicKey
  /-- `Date.now()` at the start of the call for a token. -/
  now : Option TokenType → ℤ

namespace SignatureViewer

variable (viewer : SignatureViewer)

def untilTimeSec (timeSec : ℤ) (tokenType : Option TokenType) : ℤ :=
  viewer.now tokenType / 1000 - timeSec

/-- The fee collector, or its account for one token. -/
def feeCollector (tokenType : Option TokenType) : PublicKey :=
  match tokenType with
  | none => viewer.elusivFeeCollectorAddress
  | some .LAMPORTS => viewer.elusivFeeCollectorAddress
  | some tokenType => viewer.getAssociatedTokenAcc viewer.elusivFeeCollectorAddress tokenType

def getElusivSigsLastTime (fuel : ℕ) (timeSec : ℤ) (tokenType : Option TokenType) :
    Except Failure (List TimedSignatureInfo) := do
  let totalSigs ← viewer.history.collectSigs (viewer.feeCollector tokenType)
    (viewer.untilTimeSec timeSec tokenType) fuel none []
  if tokenType = some .LAMPORTS then
    let nonLamportSigs ← TokenTypeArr.mapM fun t =>
      if t ≠ .LAMPORTS then getElusivSigsLastTime fuel timeSec (some t) else pure []
    pure (totalSigs.filter fun s =>
      !(nonLamportSigs.any fun ns => ns.any fun n => n.signature == s.signature))
  else pure totalSigs
termination_by if tokenType = some .LAMPORTS then 1 else 0
decreasing_by
  rename_i hlamports hother
  simp [hlamports, hother]

/-! ## What is returned -/

section Results

variable {viewer} {fuel : ℕ} {timeSec : ℤ} {tokenType : Option TokenType}

/-- The signatures inside the window that the address of a token has. -/
def sigsInWindow (timeSec : ℤ) (tokenType : Option TokenType) : List TimedSignatureInfo :=
  (viewer.history.signaturesFor (viewer.feeCollector tokenType)).filter
    (TimedSignatureInfo.inWindow (viewer.untilTimeSec timeSec tokenType))

/-- No signature of the address has the block time 0 inside the window. -/
def NoZeroTime (viewer : SignatureViewer) (timeSec : ℤ) (tokenType : Option TokenType) : Prop :=
  viewer.untilTimeSec timeSec tokenType < 0 →
    ∀ s ∈ viewer.history.signaturesFor (viewer.feeCollector tokenType), s.blockTime ≠ some 0

/-- What the loop collects for a token. -/
lemma collectSigs_start (timeSec : ℤ) (tokenType : Option TokenType)
    (hfuel : (viewer.history.signaturesFor (viewer.feeCollector tokenType)).length < fuel) :
    ∃ sigs, viewer.history.collectSigs (viewer.feeCollector tokenType)
        (viewer.untilTimeSec timeSec tokenType) fuel none [] = .ok sigs ∧
      (∀ s ∈ sigs, s ∈ viewer.history.signaturesFor (viewer.feeCollector tokenType) ∧
        s.blockTime ≠ some 0) ∧
      (viewer.NoZeroTime timeSec tokenType → sigs = viewer.sigsInWindow timeSec tokenType) := by
  obtain ⟨sigs, hok, hmem, hexact⟩ := @SignatureHistory.collectSigs_spec
    viewer.history (viewer.feeCollector tokenType) (viewer.untilTimeSec timeSec tokenType) fuel [] _ [] rfl hfuel
  exact ⟨sigs, hok, fun s hs =>
    ⟨(hmem s hs).1, SignatureHistory.blockTime_ne_zero_of_isRecent (hmem s hs).2⟩, hexact⟩

/-- For another token than `LAMPORTS` the loop is all there is. -/
lemma getElusivSigsLastTime_of_ne (hne : tokenType ≠ some .LAMPORTS) :
    viewer.getElusivSigsLastTime fuel timeSec tokenType
      = viewer.history.collectSigs (viewer.feeCollector tokenType)
          (viewer.untilTimeSec timeSec tokenType) fuel none [] := by
  rw [getElusivSigsLastTime]
  simp only [if_neg hne]
  exact bind_pure _

/-- For `LAMPORTS` the collections of the other tokens are taken away. -/
lemma getElusivSigsLastTime_lamports {sigs : List TimedSignatureInfo}
    (hsigs : viewer.history.collectSigs (viewer.feeCollector (some .LAMPORTS))
      (viewer.untilTimeSec timeSec (some .LAMPORTS)) fuel none [] = .ok sigs)
    {collections : TokenType → List TimedSignatureInfo}
    (hother : ∀ t ≠ .LAMPORTS,
      viewer.getElusivSigsLastTime fuel timeSec (some t) = .ok (collections t)) :
    viewer.getElusivSigsLastTime fuel timeSec (some .LAMPORTS)
      = .ok (sigs.filter fun s => ∀ t ∈ TokenTypeArr, t ≠ .LAMPORTS →
          ∀ n ∈ collections t, n.signature ≠ s.signature) := by
  have hall : (TokenTypeArr.mapM fun t =>
      if t ≠ .LAMPORTS then viewer.getElusivSigsLastTime fuel timeSec (some t) else pure [])
        = .ok (TokenTypeArr.map fun t => if t ≠ .LAMPORTS then collections t else []) :=
    mapM_of_ok fun t _ => by
      split_ifs with ht
      · exact hother t ht
      · rfl
  rw [getElusivSigsLastTime, bind_of_ok hsigs]
  simp only [if_true]
  rw [bind_of_ok hall]
  refine congrArg Except.ok (List.filter_congr fun s _ => Bool.eq_iff_iff.mpr ?_)
  rw [Bool.not_eq_true', List.any_map, List.any_eq_false, decide_eq_true_eq]
  refine forall₂_congr fun t _ => ?_
  by_cases ht : t = .LAMPORTS
  · simp [ht]
  · simp [ht]

/-- **The signatures of the window are returned exactly** when none of them has the block time 0; in
particular always when the window begins after 1970.  For `LAMPORTS` these are the ones that no collection
of another token has. -/
theorem getElusivSigsLastTime_exact_iff (viewer : SignatureViewer) (timeSec : ℤ)
    (tokenType : Option TokenType) :
    ∃ enough, ∀ fuel, enough ≤ fuel → ∃ (collections : TokenType → List TimedSignatureInfo)
      (sigs : List TimedSignatureInfo),
      (∀ t ≠ .LAMPORTS,
        viewer.getElusivSigsLastTime fuel timeSec (some t) = .ok (collections t)) ∧
      viewer.getElusivSigsLastTime fuel timeSec tokenType = .ok sigs ∧
      (sigs = (if tokenType = some .LAMPORTS then
          (viewer.sigsInWindow timeSec tokenType).filter fun s => ∀ t ∈ TokenTypeArr, t ≠ .LAMPORTS →
            ∀ n ∈ collections t, n.signature ≠ s.signature
        else viewer.sigsInWindow timeSec tokenType) ↔ viewer.NoZeroTime timeSec tokenType) := by
  refine ⟨((none :: TokenTypeArr.map some).flatMap fun t =>
    viewer.history.signaturesFor (viewer.feeCollector t)).length + 1, fun fuel hfuel => ?_⟩
  have henough : ∀ t : Option TokenType,
      (viewer.history.signaturesFor (viewer.feeCollector t)).length < fuel := by
    intro t
    have hmem : t ∈ none :: TokenTypeArr.map some := by
      rcases t with _ | t
      · exact List.mem_cons_self
      · exact List.mem_cons_of_mem _ (List.mem_map_of_mem (by cases t <;> decide))
    have hlen := (List.sublist_flatten_of_mem (List.mem_map_of_mem (f := fun t =>
      viewer.history.signaturesFor (viewer.feeCollector t)) hmem)).length_le
    rw [← List.flatMap_def] at hlen
    omega
  choose collected hok hmem hexact using fun t : Option TokenType =>
    @collectSigs_start viewer fuel timeSec t (henough t)
  have hother : ∀ t ≠ .LAMPORTS,
      viewer.getElusivSigsLastTime fuel timeSec (some t) = .ok (collected (some t)) := fun t ht => by
    rw [getElusivSigsLastTime_of_ne fun heq => ht (Option.some.inj heq), hok]
  have hwindow : viewer.untilTimeSec timeSec tokenType < 0 →
      ∀ {s}, s ∈ viewer.history.signaturesFor (viewer.feeCollector tokenType) →
        s.blockTime = some 0 → s ∈ viewer.sigsInWindow timeSec tokenType := by
    intro hneg s hs hzero
    refine List.mem_filter.mpr ⟨hs, ?_⟩
    rw [TimedSignatureInfo.inWindow, hzero, Option.any_some]
    exact decide_eq_true hneg
  refine ⟨fun t => collected (some t), ?_⟩
  by_cases hlamports : tokenType = some .LAMPORTS
  · subst hlamports
    refine ⟨_, hother, getElusivSigsLastTime_lamports (hok _) hother, ?_⟩
    rw [if_pos rfl]
    refine ⟨fun heq hneg s hs hzero => ?_, fun hnone => by rw [hexact _ hnone]⟩
    -- the signature is not in another collection either, as its block time is 0 there too
    have hin : s ∈ (viewer.sigsInWindow timeSec (some .LAMPORTS)).filter fun s =>
        ∀ t ∈ TokenTypeArr, t ≠ .LAMPORTS → ∀ n ∈ collected (some t), n.signature ≠ s.signature := by
      refine List.mem_filter.mpr ⟨hwindow hneg hs hzero, decide_eq_true_iff.mpr ?_⟩
      intro t _ _ n hn heq
      obtain ⟨hn, hne⟩ := hmem (some t) n hn
      exact hne ((viewer.history.blockTime_eq hn hs heq).trans hzero)
    rw [← heq] at hin
    exact (hmem _ s (List.mem_of_mem_filter hin)).2 hzero
  · refine ⟨_, hother, by rw [getElusivSigsLastTime_of_ne hlamports, hok], ?_⟩
    rw [if_neg hlamports]
    refine ⟨fun heq hneg s hs hzero => ?_, hexact tokenType⟩
    exact (hmem tokenType s (heq ▸ hwindow hneg hs hzero)).2 hzero

end Results

/-! ### Signatures of the first second -/

/-- A node that has the same two signatures for every address, one in a page. -/
def earlyHistory : SignatureHistory where
  pageSize := 1
  pageSize_pos := by decide
  signaturesFor _ := [⟨⟨"2", none, none⟩, some 1⟩, ⟨⟨"1", none, none⟩, some 0⟩]
  nodup _ := by decide
  timed _ := by decide
  descending _ := by simp
  blockTime_eq hs hs' heq := by
    simp only [List.mem_cons, List.not_mem_nil, or_false] at hs hs'
    rcases hs with rfl | rfl <;> rcases hs' with rfl | rfl <;> simp_all

/-- A viewer of it, five seconds after the start of time. -/
def earlyViewer : SignatureViewer where
  history := earlyHistory
  elusivFeeCollectorAddress := ElusivTransaction.bareKey 1
  getAssociatedTokenAcc _ _ := ElusivTransaction.bareKey 2
  now _ := 5000

/-- **The block time 0 is lost**: of the last ten seconds only the signature of second 1 is returned. -/
theorem getElusivSigsLastTime_loses_zero :
    earlyViewer.getElusivSigsLastTime 3 10 none = .ok [⟨⟨"2", none, none⟩, some 1⟩] ∧
      earlyViewer.sigsInWindow 10 none
        = [⟨⟨"2", none, none⟩, some 1⟩, ⟨⟨"1", none, none⟩, some 0⟩] := by
  constructor
  · rw [getElusivSigsLastTime]
    rfl
  · decide

end SignatureViewer

end ElusivSdk
