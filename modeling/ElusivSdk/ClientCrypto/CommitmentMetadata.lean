import ElusivSdk.ClientCrypto.Encryption
import ElusivSdk.Library.Program

/-!
# Commitment metadata

What a send, and a topup, tells about its own commitment: 17 bytes, encrypted with a key that is derived
from the commitment hash.

* `CommitmentMetadata.new` — the constructor with its range checks.
* `toBytes`, `fromBytes` — nonce (4 bytes), token type (2), index (3), balance (8).
* **`fromBytes_toBytes`**, **`toBytes_of_fromBytes`**, **`deserializeAndDecrypt_serializeAndEncrypt`** — the
  round trips.
* **`exists_fromBytes_iff`** — which bytes are accepted.
-/

namespace ElusivSdk

open Format Program

def COMMITMENT_METADATA_LENGTH : ℕ := 17

namespace CommitmentMetadata

def new (nonce : ℕ) (tokenType : TokenType) (assocCommIndex : ℕ) (balance : ℤ) :
    Except Failure CommitmentMetadata :=
  if hnonce : nonce > MAX_UINT32 then .error (.error "Invalid nonce")
  else if hindex : assocCommIndex > MAX_UINT20 then .error (.error "Invalid assoc comm index")
  else if hbalance : balance < 0 ∨ balance > MAX_UINT64 then .error (.error "Invalid amount")
  else .ok
    { nonce := nonce, tokenType := tokenType, assocCommIndex := assocCommIndex, balance := balance
      nonce_le := by omega, assocCommIndex_le := by omega, balance_nonneg := by omega
      balance_le := by omega }

/-- The constructor accepts what is in range. -/
lemma new_eq_ok {nonce assocCommIndex : ℕ} {tokenType : TokenType} {balance : ℤ}
    (hnonce : nonce ≤ MAX_UINT32) (hindex : assocCommIndex ≤ MAX_UINT20) (hbalance : 0 ≤ balance)
    (hmax : balance ≤ MAX_UINT64) : new nonce tokenType assocCommIndex balance
      = .ok ⟨nonce, tokenType, assocCommIndex, balance, hnonce, hindex, hbalance, hmax⟩ := by
  rw [new, dif_neg (by omega), dif_neg (by omega), dif_neg (by omega)]

/-- What the constructor made holds its arguments. -/
lemma of_new_eq_ok {nonce assocCommIndex : ℕ} {tokenType : TokenType} {balance : ℤ}
    {m : CommitmentMetadata} (h : new nonce tokenType assocCommIndex balance = .ok m) :
    m.nonce = nonce ∧ m.tokenType = tokenType ∧ m.assocCommIndex = assocCommIndex ∧
      m.balance = balance := by
  rw [new] at h
  split_ifs at h
  obtain rfl := Except.ok.inj h
  exact ⟨rfl, rfl, rfl, rfl⟩

def toBytes (m : CommitmentMetadata) : Bytes :=
  leBytes 4 m.nonce ++ leBytes 2 (getNumberFromTokenType m.tokenType) ++ leBytes 3 m.assocCommIndex
    ++ leBytes 8 m.balance.toNat

def fromBytes (serializedMetadata : Bytes) : Except Failure CommitmentMetadata := do
  if serializedMetadata.length ≠ COMMITMENT_METADATA_LENGTH then
    .error (.error "Invalid length for metadata")
  else
    let tokenType ← getTokenTypeFromNumber (ofLeBytes ((serializedMetadata.take 6).drop 4))
    new (ofLeBytes (serializedMetadata.take 4)) tokenType
      (ofLeBytes ((serializedMetadata.take 9).drop 6))
      (ofLeBytes ((serializedMetadata.take 17).drop 9))

def fromCommitment (nonce : ℕ) (comm : IncompleteCommitment) : Except Failure CommitmentMetadata := do
  let tokenType ← getTokenTypeFromNumber (getNumberFromTokenType comm.tokenType)
  new nonce tokenType comm.assocCommIndex comm.balance

/-- The detour of the token through its number changes nothing. -/
lemma fromCommitment_eq (nonce : ℕ) (comm : IncompleteCommitment) :
    fromCommitment nonce comm = new nonce comm.tokenType comm.assocCommIndex comm.balance := by
  rw [fromCommitment, getTokenTypeFromNumber_getNumber]
  rfl

lemma of_fromCommitment {nonce : ℕ} {comm : IncompleteCommitment} {metadata : CommitmentMetadata}
    (h : fromCommitment nonce comm = .ok metadata) : metadata.nonce = nonce ∧
      metadata.tokenType = comm.tokenType ∧ metadata.assocCommIndex = comm.assocCommIndex ∧
      metadata.balance = comm.balance :=
  of_new_eq_ok (fromCommitment_eq nonce comm ▸ h)

/-- A metadata with the values of a commitment is what the constructor makes of it. -/
lemma fromCommitment_of_eq {nonce : ℕ} {comm : IncompleteCommitment} {metadata : CommitmentMetadata}
    (hnonce : metadata.nonce = nonce) (htoken : metadata.tokenType = comm.tokenType)
    (hindex : metadata.assocCommIndex = comm.assocCommIndex)
    (hbalance : metadata.balance = comm.balance) : fromCommitment nonce comm = .ok metadata := by
  subst hnonce
  rw [fromCommitment_eq, ← htoken, ← hindex, ← hbalance,
    new_eq_ok metadata.nonce_le metadata.assocCommIndex_le metadata.balance_nonneg metadata.balance_le]

def serializeAndEncrypt (m : CommitmentMetadata) (rvk : RVKWrapper) (commHash : Bytes) :
    EncryptedValue := rvk.encryptMetadata m.toBytes commHash

def deserializeAndDecrypt (cipherText : Bytes) (rvk : RVKWrapper) (commHash : Bytes) :
    Except Failure CommitmentMetadata := fromBytes (rvk.decryptMetadata cipherText commHash)

/-! ## The round trips -/

@[simp]
lemma length_toBytes (m : CommitmentMetadata) : m.toBytes.length = COMMITMENT_METADATA_LENGTH := by
  simp [toBytes, COMMITMENT_METADATA_LENGTH]

theorem fromBytes_toBytes (m : CommitmentMetadata) : fromBytes m.toBytes = .ok m := by
  have htoken := getNumberFromTokenType_lt m.tokenType
  have hnonce := m.nonce_le
  have hindex := m.assocCommIndex_le
  have hlow := m.balance_nonneg
  have hhigh := m.balance_le
  have hbalance : m.balance.toNat < 256 ^ 8 := by
    have hmax : MAX_UINT64 + 1 = 256 ^ 8 := by decide
    omega
  rw [fromBytes, if_neg (by simp)]
  have h1 : m.toBytes.take 4 = leBytes 4 m.nonce := by simp [toBytes]
  have h2 : (m.toBytes.take 6).drop 4 = leBytes 2 (getNumberFromTokenType m.tokenType) := by
    simp [toBytes, List.take_append]
  have h3 : (m.toBytes.take 9).drop 6 = leBytes 3 m.assocCommIndex := by
    simp [toBytes, List.take_append, List.drop_append]
  have h4 : (m.toBytes.take 17).drop 9 = leBytes 8 m.balance.toNat := by
    rw [List.take_of_length_le (by rw [m.length_toBytes]; decide)]
    simp [toBytes, List.drop_append, List.drop_eq_nil_of_le]
  rw [h1, h2, h3, h4, ofLeBytes_leBytes (lt_of_le_of_lt hnonce (by decide)),
    ofLeBytes_leBytes (lt_trans htoken (by decide)),
    ofLeBytes_leBytes (lt_of_le_of_lt hindex (by decide)), ofLeBytes_leBytes hbalance,
    getTokenTypeFromNumber_getNumber]
  show new m.nonce m.tokenType m.assocCommIndex (m.balance.toNat : ℤ) = .ok m
  rw [Int.toNat_of_nonneg hlow, new_eq_ok hnonce hindex hlow hhigh]

/-- The four fields together are all of the bytes. -/
lemma append_fields {b : Bytes} (h : b.length = COMMITMENT_METADATA_LENGTH) :
    b.take 4 ++ (b.take 6).drop 4 ++ (b.take 9).drop 6 ++ (b.take 17).drop 9 = b := by
  have hnext : ∀ i j : ℕ, i ≤ j → b.take i ++ (b.take j).drop i = b.take j := fun i j hij => by
    have htake : b.take i = (b.take j).take i := by rw [List.take_take, Nat.min_eq_left hij]
    rw [htake, List.take_append_drop]
  rw [hnext 4 6 (by omega), hnext 6 9 (by omega), hnext 9 17 (by omega)]
  exact List.take_of_length_le (Nat.le_of_eq h)

/-- **Bytes that are accepted are what is written for the metadata.** -/
theorem toBytes_of_fromBytes {b : Bytes} {m : CommitmentMetadata} (h : fromBytes b = .ok m) :
    m.toBytes = b := by
  rw [fromBytes] at h
  split_ifs at h with hlen
  rw [not_not] at hlen
  have hsize : b.length = 17 := hlen
  obtain ⟨tokenType, htoken, hnew⟩ := bind_eq_ok.mp h
  obtain ⟨hnonce, rfl, hindex, hbalance⟩ := of_new_eq_ok hnew
  rw [toBytes, hnonce, ← getTokenTypeFromNumber_eq_ok_iff.mp htoken, hindex, hbalance, Int.toNat_natCast,
    leBytes_ofLeBytes_of_length (by simp [hsize]), leBytes_ofLeBytes_of_length (by simp [hsize]),
    leBytes_ofLeBytes_of_length (by simp [hsize]), leBytes_ofLeBytes_of_length (by simp [hsize]),
    append_fields hlen]

/-- **What is accepted**: 17 bytes, of which the token number is known and the index has 20 bits. -/
theorem exists_fromBytes_iff {b : Bytes} : (∃ m, fromBytes b = .ok m) ↔
    b.length = COMMITMENT_METADATA_LENGTH ∧
      ofLeBytes ((b.take 6).drop 4) < TokenTypeArr.length ∧
      ofLeBytes ((b.take 9).drop 6) < 2 ^ 20 := by
  rw [fromBytes]
  split_ifs with hlen
  · exact iff_of_false (fun ⟨_, h⟩ => by contradiction) fun h => hlen h.1
  · rw [not_not] at hlen
    have hsize : b.length = 17 := hlen
    rw [and_iff_right hlen, ← exists_getTokenTypeFromNumber_iff]
    constructor
    · rintro ⟨m, h⟩
      obtain ⟨tokenType, htoken, hnew⟩ := bind_eq_ok.mp h
      obtain ⟨-, -, hindex, -⟩ := of_new_eq_ok hnew
      exact ⟨⟨tokenType, htoken⟩, hindex ▸ Nat.lt_succ_of_le m.assocCommIndex_le⟩
    · rintro ⟨⟨tokenType, htoken⟩, hindex⟩
      have hnonce := ofLeBytes_lt (b.take 4)
      have hbalance := ofLeBytes_lt ((b.take 17).drop 9)
      have hfour : (b.take 4).length = 4 := by simp [hsize]
      have height : ((b.take 17).drop 9).length = 8 := by simp [hsize]
      rw [hfour] at hnonce
      rw [height] at hbalance
      have hmax : MAX_UINT64 + 1 = 256 ^ 8 := by decide
      exact ⟨_, bind_eq_ok.mpr ⟨tokenType, htoken, new_eq_ok (Nat.le_of_lt_succ hnonce)
        (Nat.le_of_lt_succ hindex) (Int.natCast_nonneg _) (by omega)⟩⟩

theorem deserializeAndDecrypt_serializeAndEncrypt (m : CommitmentMetadata) (rvk : RVKWrapper)
    (commHash : Bytes) :
    deserializeAndDecrypt (m.serializeAndEncrypt rvk commHash).cipherText rvk commHash = .ok m := by
  rw [deserializeAndDecrypt, serializeAndEncrypt, rvk.decryptMetadata_encrypt, fromBytes_toBytes]

end CommitmentMetadata

end ElusivSdk
