import ElusivSdk.Library.SparseArray
import ElusivSdk.Utils.GeneralSet
import ElusivSdk.Utils.IndexConverter
import Mathlib.Data.Char
import Mathlib.Data.List.Lex
import Mathlib.Data.List.Sort

/-!
# Reading the tree

The reader looks for the places of commitment hashes in the accounts (*chunks*) that hold the tree.
Each commitment comes with a start index, from which on it has to be; after each commitment found the
search jumps to the next start index.  `startIndices.sort()` compares numbers by their decimal text.

* `getChunkFromIndex` — the bytes of a chunk, from the key that the storage account has for it.
* `findCommitmentIndicesInChunk`, `findCommitmentIndicesAcrossChunks` — the search.
* `getCommitmentsAtLocalIndices` — the values of some nodes, and the root.
-/

namespace ElusivSdk

def COULD_NOT_FETCH_DATA (dataName : String) : String := "Could not fetch data: " ++ dataName
def INVALID_READ : String := "Attempted to read invalid account"
def INVALID_ACCESS (val : String) : String := "Attempted to access invalid value: " ++ val

abbrev MontScalar := Bytes

/-- An array of bytes, and which array it is: a `Map` with arrays as keys compares these. -/
structure MontArray where
  id : ℕ
  bytes : MontScalar
deriving DecidableEq

def zeros (length : ℕ) : Bytes := List.replicate length 0

/-- `null` when the buffer ends before the value does. -/
def readFixedLengthValueFromBuffer (buffer : Bytes) (index length : ℕ) : Option Bytes :=
  if (index + 1) * length > buffer.length then none
  else some ((buffer.take ((index + 1) * length)).drop (index * length))

/-- The text of `a` is not after that of `b`. -/
def TextLE (a b : ℕ) : Prop := Nat.toDigits 10 a ≤ Nat.toDigits 10 b

instance : DecidableRel TextLE := fun a b =>
  inferInstanceAs (Decidable (Nat.toDigits 10 a ≤ Nat.toDigits 10 b))

/-- `numbers.sort()` without a comparison function: by decimal text. -/
def sortAsText (numbers : List ℕ) : List ℕ := numbers.insertionSort TextLE

/-! ## Chunks -/

structure StorageAccBorsh where
  /-- A flag and a key, 33 bytes, for each chunk. -/
  pubkeys : Bytes
  length_eq : pubkeys.length = STORAGE_MT_CHUNK_COUNT * 33

structure TreeChunkAccBorsh where
  is_in_use : ℕ
  commitment_data : Bytes

/-- The accounts as the node reports them. -/
abbrev TreeChunkAccountReader := PublicKey → Except Failure TreeChunkAccBorsh

def TreeChunkAccountReader.getTreeChunk (getData : TreeChunkAccountReader) (chunkAccount : PublicKey) :
    Except Failure TreeChunkAccBorsh := do
  let chunk ← getData chunkAccount
  if chunk.is_in_use ≠ 1 then .error (.error (INVALID_ACCESS "TreeChunkAcc")) else .ok chunk

namespace StorageAccountReader

def readCommitmentAtAccIndex (bytes : Bytes) (accIndex : ℕ) : Option MontScalar :=
  readFixedLengthValueFromBuffer bytes accIndex 32

lemma length_readFixedLengthValue {buffer value : Bytes} {index length : ℕ}
    (h : readFixedLengthValueFromBuffer buffer index length = some value) : value.length = length := by
  rw [readFixedLengthValueFromBuffer] at h
  split_ifs at h with hlen
  obtain rfl := Option.some.inj h
  rw [List.length_drop, List.length_take, Nat.succ_mul] at *
  omega

def getChunkKeyAtIndex (mergedChunkKeys : Bytes) (index : ℕ) : Except Failure (Option PublicKey) :=
  if index ≥ STORAGE_MT_CHUNK_COUNT then .error (.error INVALID_READ)
  else
    match h : readFixedLengthValueFromBuffer mergedChunkKeys index 33 with
    | none => .ok none
    | some fetchedKeyBuffer =>
        if fetchedKeyBuffer.head? = some 0 then .error (.error INVALID_READ)
        else .ok (some ⟨fetchedKeyBuffer.drop 1, by
          rw [List.length_drop, length_readFixedLengthValue h]⟩)

def getChunkFromIndex (accIndex : ℕ) (storageAcc : StorageAccBorsh)
    (treeChunkReader : TreeChunkAccountReader) : Except Failure Bytes := do
  match ← getChunkKeyAtIndex storageAcc.pubkeys accIndex with
  | none => .error (.error (COULD_NOT_FETCH_DATA "chunk"))
  | some key => return (← treeChunkReader.getTreeChunk key).commitment_data

/-! ## The search -/

/-- The variables of the scan at the top of a round. -/
structure Scan where
  i : ℕ
  startIndexIndex : ℕ
  res : List (Option ℕ)

/-- One commitment of the chunk against all hashes: the positions known after it, and whether it was one
of the hashes that were still missing. -/
def checkCommitment (commHashes : List MontScalar) (fetchedCommitment : MontScalar) (i : ℕ)
    (res : List (Option ℕ)) : List (Option ℕ) × Bool :=
  (List.zipWith (fun val r => if r = none ∧ val = fetchedCommitment then some i else r) commHashes res,
    (commHashes.zip res).any fun (val, r) => r = none ∧ val = fetchedCommitment)

/-- `nextStart > i ? nextStart : i`, where no start index left makes `nextStart` not a number. -/
def skipTo (sortedStartIndices : List ℕ) (startIndexIndex i : ℕ) : ℕ :=
  match sortedStartIndices[startIndexIndex]? with
  | none => i
  | some start =>
      -- the start index 0 stays in front of every `i`
      let nextStart := start - 1
      if nextStart > i then nextStart else i

def scanChunk (chunk : Bytes) (commHashes : List MontScalar) (sortedStartIndices : List ℕ) :
    ℕ → Scan → Except Failure (List (Option ℕ))
  | 0, _ => .error .outOfFuel
  | fuel + 1, ⟨i, startIndexIndex, res⟩ =>
      if i < STORAGE_MT_VALUES_PER_ACCOUNT then
        match readCommitmentAtAccIndex chunk i with
        | none => .error .typeError
        | some fetchedCommitment =>
            if fetchedCommitment = zeros 32 then .error (.error (COULD_NOT_FETCH_DATA "commitment"))
            else
              match checkCommitment commHashes fetchedCommitment i res with
              | (res, found) =>
                  if res.all Option.isSome then .ok res
                  else if found then
                    scanChunk chunk commHashes sortedStartIndices fuel
                      ⟨skipTo sortedStartIndices (startIndexIndex + 1) i + 1, startIndexIndex + 1, res⟩
                  else
                    scanChunk chunk commHashes sortedStartIndices fuel ⟨i + 1, startIndexIndex, res⟩
      else .ok res

def findCommitmentIndicesInChunk (chunk : Bytes) (commHashes : List MontScalar)
    (startIndices : List ℕ) : Except Failure (List (Option ℕ)) :=
  let sortedStartIndices := sortAsText startIndices
  let res := List.replicate commHashes.length none
  match sortedStartIndices[0]? with
  | none => .ok res
  | some i =>
      scanChunk chunk commHashes sortedStartIndices (STORAGE_MT_VALUES_PER_ACCOUNT + 1) ⟨i, 0, res⟩

/-- The places found so far, each array once. -/
abbrev Indices := List (MontArray × ℕ)

def Indices.has (res : Indices) (comm : MontArray) : Bool := res.any fun entry => entry.1 = comm

def Indices.get (res : Indices) (comm : MontArray) : Option ℕ :=
  (res.find? fun entry => entry.1 = comm).map Prod.snd

def Indices.set (res : Indices) (comm : MontArray) (index : ℕ) : Indices :=
  if res.has comm then res.map fun entry => if entry.1 = comm then (comm, index) else entry
  else res ++ [(comm, index)]

/-- Where the search for a commitment starts in a chunk. -/
def startInChunk (accIndex : ℕ) (c : MontArray × AccIndex) : ℕ :=
  if c.2.indexOfAccount = accIndex then c.2.indexInAccount else 0

/-- The commitments found in one chunk are entered in the map. -/
def insertFound (accIndex : ℕ) (res : Indices) :
    List ((MontArray × AccIndex) × Option ℕ) → Except Failure Indices
  | [] => .ok res
  | (_, none) :: found => insertFound accIndex res found
  | (c, some indexInAccount) :: found => do
      let index ← IndexConverter.accIndexToGlobalIndex ⟨accIndex, indexInAccount⟩
      insertFound accIndex (res.set c.1 index) found

def scanChunks (comms : List (MontArray × AccIndex)) (treeChunkReader : TreeChunkAccountReader)
    (storageAcc : StorageAccBorsh) : ℕ → ℕ → Indices → Except Failure Indices
  | 0, _, _ => .error .outOfFuel
  | fuel + 1, accIndex, res =>
      if res.length ≠ comms.length ∧ accIndex < STORAGE_MT_CHUNK_COUNT then do
        let chunk ← getChunkFromIndex accIndex storageAcc treeChunkReader
        let leftToFindComms := comms.filter fun c => !res.has c.1
        let foundIndices ← findCommitmentIndicesInChunk chunk (leftToFindComms.map fun c => c.1.bytes)
          (leftToFindComms.map (startInChunk accIndex))
        let res ← insertFound accIndex res (leftToFindComms.zip foundIndices)
        scanChunks comms treeChunkReader storageAcc fuel (accIndex + 1) res
      else .ok res

def minAcc (comms : List (MontArray × AccIndex)) : ℕ :=
  comms.foldl (fun acc c => min acc c.2.indexOfAccount) STORAGE_MT_CHUNK_COUNT

def findCommitmentIndicesAcrossChunks (comms : List (MontArray × AccIndex))
    (treeChunkReader : TreeChunkAccountReader) (storageAcc : StorageAccBorsh) :
    Except Failure Indices :=
  if comms.length = 0 then .ok []
  else scanChunks comms treeChunkReader storageAcc (STORAGE_MT_CHUNK_COUNT + 1) (minAcc comms) []

/-- The commitments by the account that their start index is in. -/
def groupAccIndices (comms : List (MontArray × AccIndex)) : List (ℕ × List (MontArray × AccIndex)) :=
  comms.foldl (fun res comm =>
    let group := (mapGet res comm.2.indexOfAccount).getD []
    addToSet Prod.fst res (comm.2.indexOfAccount, group ++ [comm])) []

/-- Entries of a later map replace those of an earlier one. -/
def mergeMaps (maps : List Indices) : Indices :=
  maps.flatten.foldl (fun res item => res.set item.1 item.2) []

/-- Every group is searched by itself, with `treeChunkReader group` for its reads. -/
def findCommitmentIndicesFromStartIndex (comms : List (MontArray × LocalIndex))
    (treeChunkReader : ℕ → TreeChunkAccountReader) (storageAcc : StorageAccBorsh) :
    Except Failure Indices := do
  let accIndices ← comms.mapM fun p => do
    let accIndex ← IndexConverter.localIndexToAccIndex p.2
    pure (p.1, accIndex)
  let fetchedCommIndices ← (groupAccIndices accIndices).mapM fun group =>
    findCommitmentIndicesAcrossChunks group.2 (treeChunkReader group.1) storageAcc
  pure (mergeMaps fetchedCommIndices)

/-! ## Openings -/

/-- The chunks that are read, each at the place of its index; a failed read is thrown where the chunk is
awaited. -/
def getChunksFromIndices (accIndices : List ℕ) (storageAcc : StorageAccBorsh)
    (treeChunkReader : TreeChunkAccountReader) : List (Option (Except Failure Bytes)) :=
  accIndices.foldl (fun res i =>
    SparseArray.assign res i (getChunkFromIndex i storageAcc treeChunkReader)) []

/-- Waiting for the chunk at a place. -/
def awaitChunk (uniqueAccs : List (Option (Except Failure Bytes))) (indexOfAccount : ℕ) :
    Except Failure Bytes :=
  match SparseArray.at? uniqueAccs indexOfAccount with
  | none => .error .typeError
  | some chunk => chunk

def getRoot (storageAcc : StorageAccBorsh) (treeChunkReader : TreeChunkAccountReader) :
    Except Failure (Option MontScalar) := do
  let chunk ← getChunkFromIndex 0 storageAcc treeChunkReader
  pure (readCommitmentAtAccIndex chunk 0)

/-- The commitments by the text of their index, and the root, which is not awaited here.  Each of the
two is read with a reader of its own. -/
def getCommitmentsAtLocalIndices (localIndices : List LocalIndex) (storageAcc : StorageAccBorsh)
    (treeChunkReader rootChunkReader : TreeChunkAccountReader) :
    Except Failure (List (String × Option MontScalar) × Except Failure (Option MontScalar)) := do
  let accIndices ← localIndices.mapM IndexConverter.localIndexToAccIndex
  let uniqueAccs := getChunksFromIndices
    ((accIndices.map AccIndex.indexOfAccount).foldl (addToSet id) []) storageAcc treeChunkReader
  let commitmentsToFetch ← (localIndices.zip accIndices).mapM fun (i, accIndexData) => do
    let data ← awaitChunk uniqueAccs accIndexData.indexOfAccount
    pure (localIndexToString i, readCommitmentAtAccIndex data accIndexData.indexInAccount)
  pure (commitmentsToFetch.foldl (addToSet Prod.fst) [], getRoot storageAcc rootChunkReader)

end StorageAccountReader

end ElusivSdk
