import ElusivSdk.Encoding.Base58
import ElusivSdk.ParamManagers.Fee.FeeCalculator
import ElusivSdk.Transactions.Instructions.StoreInstruction

/-!
# The fee accounts

Fees are read from two kinds of accounts of the program: the governor, which has the current version, and one
fee account for each version.  An account is found under an address derived from its seeds, and its bytes are
in the borsh format.

* `formatElusivPDASeed` — the seeds of an address.
* **`ElusivPDA.seedBytes_injective`** — no two addresses of the program are derived from the same bytes.
* `governorAccBorsh`, `feeAccBorsh` — the formats.
* `FeeProgram` — the accounts as the program keeps them.
* **`FeeProgram.reports_connection`** — a node that has these accounts reports each under its address.
-/

namespace ElusivSdk

open Format

def FEE_ACC_SEED : String := "Fee"
def COULD_NOT_FIND_ACCOUNT (address : String) : String := "Could not find account with address " ++ address

def stringToUtf8ByteCodes (s : String) : Bytes := s.toUTF8.data.toList

/-! ## Addresses -/

/-- The offset is the last seed, if there is one. -/
def formatElusivPDASeed (seeds : List String) (offset : Option ℕ) : List Bytes :=
  seeds.map stringToUtf8ByteCodes ++ (offset.map (leBytes 4)).toList

/-- The addresses that the SDK derives. -/
inductive ElusivPDA
  | baseCommitmentBuffer
  | baseCommitmentHash (hashAccIndex : ℕ)
  | pool
  | governor
  | storage
  | fee (version : ℕ)
  | feeCollector
deriving DecidableEq

namespace ElusivPDA

def seed : ElusivPDA → String
  | baseCommitmentBuffer => BASE_COMMITMENT_BUFFER_ACC_SEED
  | baseCommitmentHash _ => BASE_COMMITMENT_HASH_ACC_SEED
  | pool => POOL_ACC_SEED
  | governor => GOVERNOR_ACC_SEED
  | storage => STORAGE_ACC_SEED
  | fee _ => FEE_ACC_SEED
  | feeCollector => FEE_COLLECTOR_SEED

def offset : ElusivPDA → Option ℕ
  | baseCommitmentHash hashAccIndex => some hashAccIndex
  | fee version => some version
  | _ => none

/-- Offsets have 32 bits. -/
def Valid (pda : ElusivPDA) : Prop := ∀ n ∈ pda.offset, n ≤ MAX_UINT32

lemma valid_governor : governor.Valid := by
  rintro n ⟨⟩

lemma valid_fee {version : ℕ} (h : version ≤ MAX_UINT32) : (fee version).Valid := by
  rintro n ⟨⟩
  exact h

def key (accs : ProgramAccounts) (pda : ElusivPDA) : PublicKey :=
  (accs.generateElusivPDAFrom [pda.seed] pda.offset).1

/-- `findProgramAddressSync` hashes the seeds one after the other. -/
def seedBytes (pda : ElusivPDA) : Bytes := (formatElusivPDASeed [pda.seed] pda.offset).flatten

/-- The bytes start with those of the name. -/
lemma seedBytes_eq (pda : ElusivPDA) :
    pda.seedBytes = stringToUtf8ByteCodes pda.seed ++ (pda.offset.map (leBytes 4)).getD [] := by
  rw [seedBytes, formatElusivPDASeed]
  cases pda.offset with
  | none => simp
  | some n => simp

/-- The length and the first byte of what an address is derived from. -/
def shape : ElusivPDA → ℕ × Char
  | baseCommitmentBuffer => (20, 'B')
  | baseCommitmentHash _ => (25, 'B')
  | pool => (4, 'P')
  | governor => (8, 'G')
  | storage => (7, 'S')
  | fee _ => (7, 'F')
  | feeCollector => (12, 'F')

lemma shape_eq (pda : ElusivPDA) : (pda.seedBytes.length, pda.seedBytes.head?)
    = (pda.shape.1, some (UInt8.ofNat pda.shape.2.toNat)) := by
  cases pda with
  | _ => rfl

/-- The names are told apart by their shapes, and then the offsets by their bytes. -/
theorem seedBytes_injective {pda pda' : ElusivPDA} (hvalid : pda.Valid) (hvalid' : pda'.Valid)
    (h : pda.seedBytes = pda'.seedBytes) : pda = pda' := by
  have hshape : (pda.shape.1, some (UInt8.ofNat pda.shape.2.toNat))
      = (pda'.shape.1, some (UInt8.ofNat pda'.shape.2.toNat)) := by
    rw [← shape_eq, ← shape_eq, h]
  have hoffset : ∀ {n n' : ℕ}, n ≤ MAX_UINT32 → n' ≤ MAX_UINT32 → leBytes 4 n = leBytes 4 n' → n = n' := by
    intro n n' hn hn' hbytes
    have hread := congrArg ofLeBytes hbytes
    rwa [ofLeBytes_leBytes (Nat.lt_succ_of_le hn), ofLeBytes_leBytes (Nat.lt_succ_of_le hn')] at hread
  rw [seedBytes_eq, seedBytes_eq] at h
  cases pda with
  | baseCommitmentHash n =>
      cases pda' with
      | baseCommitmentHash n' =>
          exact congrArg _ (hoffset (hvalid n rfl) (hvalid' n' rfl) (List.append_cancel_left h))
      | _ => cases hshape
  | fee n =>
      cases pda' with
      | fee n' => exact congrArg _ (hoffset (hvalid n rfl) (hvalid' n' rfl) (List.append_cancel_left h))
      | _ => cases hshape
  | _ =>
      cases pda' with
      | _ => first | rfl | cases hshape

/-- When the hash of the seeds has no collision, the addresses are different. -/
lemma key_injective {accs : ProgramAccounts} {find : Bytes → PublicKey}
    (hfind : ∀ seeds offset,
      (accs.generateElusivPDAFrom seeds offset).1 = find (formatElusivPDASeed seeds offset).flatten)
    (hinj : Set.InjOn find {bytes | bytes.length < 32}) {pda pda' : ElusivPDA} (hvalid : pda.Valid)
    (hvalid' : pda'.Valid) (h : pda.key accs = pda'.key accs) : pda = pda' := by
  have hshort : ∀ pda : ElusivPDA, pda.seedBytes.length < 32 := by
    intro pda
    rw [(Prod.mk.inj pda.shape_eq).1]
    cases pda with
    | _ => simp [shape]
  rw [key, key, hfind, hfind] at h
  exact seedBytes_injective hvalid hvalid' (hinj (hshort pda) (hshort pda') h)

end ElusivPDA

/-! ## Formats -/

structure PDAAccountDataBorsh where
  bump_seed : ℕ
  version : ℕ
deriving DecidableEq

structure FeeAccBorsh where
  pda_data : PDAAccountDataBorsh
  program_fee : ProgramFee
deriving DecidableEq

structure GovernorAccBorsh where
  pda_data : PDAAccountDataBorsh
  fee_version : ℕ
  program_fee : ProgramFee
  commitment_batching_rate : ℕ
  program_version : ℕ
deriving DecidableEq

def pdaAccountDataBorsh : Format PDAAccountDataBorsh :=
  ((uint 1).pair (uint 1)).iso
  { toFun := fun (a, b) => ⟨a, b⟩
    invFun := fun s => (s.bump_seed, s.version)
    left_inv := fun _ => rfl
    right_inv := fun _ => rfl }

def programFeeBorsh : Format ProgramFee :=
  ((uint 8).pair <| (uint 8).pair <| (uint 8).pair <| (uint 8).pair <| (uint 8).pair <|
    (uint 8).pair <| (uint 8).pair (uint 8)).iso
  { toFun := fun (a, b, c, d, e, f, g, h) => ⟨a, b, c, d, e, f, g, h⟩
    invFun := fun s => (s.lamports_per_tx, s.base_commitment_network_fee, s.proof_network_fee,
      s.base_commitment_subvention, s.proof_subvention, s.warden_hash_tx_reward, s.warden_proof_reward,
      s.proof_base_tx_count)
    left_inv := fun _ => rfl
    right_inv := fun _ => rfl }

def feeAccBorsh : Format FeeAccBorsh :=
  (pdaAccountDataBorsh.pair programFeeBorsh).iso
  { toFun := fun (a, b) => ⟨a, b⟩
    invFun := fun s => (s.pda_data, s.program_fee)
    left_inv := fun _ => rfl
    right_inv := fun _ => rfl }

def governorAccBorsh : Format GovernorAccBorsh :=
  (pdaAccountDataBorsh.pair <| (uint 4).pair <| programFeeBorsh.pair <| (uint 4).pair (uint 4)).iso
  { toFun := fun (a, b, c, d, e) => ⟨a, b, c, d, e⟩
    invFun := fun s => (s.pda_data, s.fee_version, s.program_fee, s.commitment_batching_rate,
      s.program_version)
    left_inv := fun _ => rfl
    right_inv := fun _ => rfl }

/-! ## Reading an account -/

/-- What a node reports, and what `deserialize` throws for bytes that it cannot read. -/
structure AccountConnection where
  getAccountInfo : PublicKey → Option Bytes
  borshError : Bytes → Failure

def getProgramInfo {α : Type} (classType : Format α) (conn : AccountConnection) (readingAccKey : PublicKey) :
    Except Failure α :=
  match conn.getAccountInfo readingAccKey with
  | none => .error (.error (COULD_NOT_FIND_ACCOUNT readingAccKey.toBase58))
  | some data =>
      match classType.parse data with
      | some account => .ok account
      | none => .error (conn.borshError data)

/-- The accounts of the program that fees are read from. -/
structure FeeProgram where
  governor : GovernorAccBorsh
  /-- The fee accounts, by their offset. -/
  feeAccounts : List FeeAccBorsh
  fits_governor : governorAccBorsh.Fits governor
  fits_fee : ∀ account ∈ feeAccounts, feeAccBorsh.Fits account
  length_le : feeAccounts.length ≤ MAX_UINT32 + 1
  /-- The governor has the fee of the account with the offset `fee_version`. -/
  current : feeAccounts[governor.fee_version]?.map FeeAccBorsh.program_fee = some governor.program_fee

namespace FeeProgram

variable {p : FeeProgram} {accs : ProgramAccounts} {conn : AccountConnection}

/-- The node reports the accounts of the program. -/
structure Reports (p : FeeProgram) (accs : ProgramAccounts) (conn : AccountConnection) : Prop where
  governor : conn.getAccountInfo (ElusivPDA.governor.key accs) = some (governorAccBorsh.encode p.governor)
  fee : ∀ version ≤ MAX_UINT32, conn.getAccountInfo ((ElusivPDA.fee version).key accs)
    = p.feeAccounts[version]?.map feeAccBorsh.encode

lemma Reports.getData_governor (h : p.Reports accs conn) :
    getProgramInfo governorAccBorsh conn (ElusivPDA.governor.key accs) = .ok p.governor := by
  rw [getProgramInfo, h.governor]
  dsimp only
  rw [parse_encode governorAccBorsh p.fits_governor]

lemma Reports.getData_fee (h : p.Reports accs conn) {version : ℕ} (hversion : version ≤ MAX_UINT32) :
    getProgramInfo feeAccBorsh conn ((ElusivPDA.fee version).key accs) = match p.feeAccounts[version]? with
      | some account => .ok account
      | none => .error (.error (COULD_NOT_FIND_ACCOUNT ((ElusivPDA.fee version).key accs).toBase58)) := by
  rw [getProgramInfo, h.fee version hversion]
  cases haccount : p.feeAccounts[version]? with
  | none => rfl
  | some account =>
      rw [Option.map_some]
      dsimp only
      rw [parse_encode feeAccBorsh (p.fits_fee account (List.mem_of_getElem? haccount))]

/-- The accounts with their addresses. -/
def accounts (p : FeeProgram) (accs : ProgramAccounts) : List (PublicKey × Bytes) :=
  (ElusivPDA.governor.key accs, governorAccBorsh.encode p.governor) ::
    p.feeAccounts.mapIdx fun version account => ((ElusivPDA.fee version).key accs, feeAccBorsh.encode account)

def connection (p : FeeProgram) (accs : ProgramAccounts) : AccountConnection where
  getAccountInfo key := (p.accounts accs).lookup key
  borshError _ := .error "borsh"

/-- An entry is found under the key of its position, when that is no other entry's. -/
lemma lookup_mapIdx {α β κ : Type} [DecidableEq κ] (g : α → β) {l : List α} :
    ∀ {key : ℕ → κ} {n : ℕ}, (∀ i < l.length, key n = key i → n = i) →
      (l.mapIdx fun i a => (key i, g a)).lookup (key n) = l[n]?.map g := by
  induction l with
  | nil =>
      intro key n _
      rfl
  | cons a l ih =>
      intro key n hne
      rw [List.mapIdx_cons]
      cases n with
      | zero => rw [List.lookup_cons_self, List.getElem?_cons_zero, Option.map_some]
      | succ n =>
          have hfirst : (key (n + 1) == key 0) = false :=
            beq_eq_false_iff_ne.mpr fun heq => nomatch hne 0 (Nat.succ_pos _) heq
          rw [List.lookup_cons, hfirst, List.getElem?_cons_succ]
          exact @ih (fun i => key (i + 1)) n fun i hi heq =>
            Nat.succ.inj (hne (i + 1) (Nat.succ_lt_succ hi) heq)

/-- **A node that has the accounts reports them**, when no two addresses are the same. -/
theorem reports_connection (p : FeeProgram) (hkeys : ∀ {pda pda' : ElusivPDA}, pda.Valid → pda'.Valid →
    pda.key accs = pda'.key accs → pda = pda') : p.Reports accs (p.connection accs) := by
  constructor
  · show (p.accounts accs).lookup _ = _
    rw [accounts, List.lookup_cons_self]
  · intro version hversion
    have hgovernor : ((ElusivPDA.fee version).key accs == ElusivPDA.governor.key accs) = false :=
      beq_eq_false_iff_ne.mpr fun heq => nomatch hkeys (ElusivPDA.valid_fee hversion) ElusivPDA.valid_governor heq
    show (p.accounts accs).lookup _ = _
    rw [accounts, List.lookup_cons, hgovernor]
    refine @lookup_mapIdx _ _ _ _ feeAccBorsh.encode _ (fun v => (ElusivPDA.fee v).key accs) version
      fun i hi heq => ElusivPDA.fee.inj (hkeys (ElusivPDA.valid_fee hversion) (ElusivPDA.valid_fee ?_) heq)
    have hlength := p.length_le
    omega

end FeeProgram

end ElusivSdk
