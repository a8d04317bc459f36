import ElusivSdk.AccountReaders.StorageAccountReader
import ElusivSdk.Library.Format

/-!
# Openings of commitments

The tree manager looks commitments up in the tree and reads, for each one, the siblings on the way to
the root, and the root itself.

* `PoseidonScalars` — the hash package: the two forms of a scalar and the hash of two numbers.
* `getOpeningIndicesInner`, `getOpenings` — the siblings that are needed, and reading them.
* `getCommitmentsInfo` — index, opening and root of every commitment.
* `TreeReads` — the answers of the node to the reads of one call.
-/

namespace ElusivSdk

open Format StorageAccountReader

abbrev ReprScalar := Bytes

/-- What is used of the hash package. -/
structure PoseidonScalars where
  reprToMont : ReprScalar → MontScalar
  montToRepr : MontScalar → ReprScalar
  /-- `poseidonHashBigInt` of two numbers. -/
  poseidonHashBigInt : ℕ → ℕ → ℕ

structure CommitmentInfo where
  index : ℕ
  opening : List ℕ
  root : ℕ
deriving DecidableEq

/-- What the node answers to the reads of one call.  The search reads the chunks of each group of
commitments by itself; siblings and root are read with readers of their own. -/
structure TreeReads where
  searchAcc : StorageAccBorsh
  searchChunks : ℕ → TreeChunkAccountReader
  openingAcc : StorageAccBorsh
  siblingChunks : TreeChunkAccountReader
  rootChunk : TreeChunkAccountReader

namespace TreeManager

/-- The values of empty subtrees by level, in Montgomery form. -/
def defaultValues : List MontScalar :=
  [
    [215, 208, 169, 37, 21, 214, 245, 126, 221, 48, 194, 233, 207, 177, 29, 18, 85, 167, 242, 130,
     212, 71, 7, 78, 114, 10, 173, 101, 60, 84, 109, 9],
    [68, 89, 173, 222, 230, 170, 252, 78, 231, 34, 126, 164, 43, 187, 137, 244, 131, 254, 238,
     133, 35, 169, 175, 160, 145, 110, 94, 131, 102, 137, 115, 40],
    [51, 251, 186, 127, 55, 143, 98, 20, 22, 65, 243, 34, 243, 240, 93, 64, 22, 16, 89, 136, 58,
     238, 219, 189, 137, 240, 147, 136, 227, 199, 8, 18],
    [236, 110, 13, 154, 171, 245, 53, 65, 211, 210, 85, 234, 88, 34, 220, 212, 62, 173, 99, 42,
     162, 174, 187, 11, 168, 240, 202, 51, 148, 184, 142, 34],
    [24, 105, 228, 247, 251, 67, 134, 40, 68, 98, 71, 80, 37, 131, 62, 181, 223, 238, 211, 88,
     230, 89, 159, 179, 65, 229, 221, 202, 160, 119, 2, 31],
    [23, 63, 108, 217, 4, 51, 59, 214, 94, 255, 90, 176, 19, 205, 240, 52, 98, 138, 26, 96, 194,
     30, 124, 185, 113, 59, 71, 135, 22, 189, 223, 21],
    [121, 74, 240, 81, 202, 98, 247, 184, 68, 43, 52, 182, 165, 2, 113, 154, 163, 26, 73, 186, 58,
     190, 218, 129, 134, 0, 143, 187, 72, 241, 51, 29],
    [204, 81, 128, 228, 236, 75, 32, 52, 141, 233, 50, 175, 99, 20, 90, 132, 38, 45, 25, 223, 247,
     10, 112, 33, 0, 79, 144, 138, 59, 187, 10, 20],
    [237, 115, 97, 145, 232, 65, 190, 215, 163, 149, 19, 111, 159, 166, 20, 97, 61, 235, 236, 85,
     0, 247, 173, 110, 244, 211, 71, 235, 223, 210, 220, 3],
    [177, 89, 55, 44, 13, 53, 50, 76, 143, 95, 226, 63, 243, 253, 248, 153, 1, 33, 141, 61, 84,
     78, 175, 170, 17, 92, 8, 242, 221, 246, 226, 5],
    [228, 244, 77, 241, 92, 212, 9, 105, 212, 241, 190, 161, 17, 14, 166, 107, 164, 226, 117, 236,
     56, 57, 174, 36, 61, 114, 205, 34, 240, 31, 13, 33],
    [190, 171, 114, 180, 49, 21, 132, 161, 141, 16, 77, 191, 105, 239, 105, 105, 8, 64, 253, 159,
     196, 2, 99, 181, 129, 34, 5, 36, 120, 240, 129, 23],
    [54, 63, 5, 212, 210, 204, 167, 180, 13, 135, 84, 97, 129, 172, 209, 79, 29, 33, 249, 83, 92,
     61, 19, 196, 93, 251, 179, 42, 250, 163, 197, 22],
    [77, 199, 105, 95, 222, 183, 99, 229, 133, 193, 250, 29, 35, 92, 66, 209, 150, 145, 122, 205,
     136, 103, 205, 207, 32, 181, 252, 167, 89, 74, 52, 18],
    [77, 214, 11, 70, 225, 121, 188, 80, 144, 34, 40, 76, 75, 163, 124, 153, 146, 178, 225, 180,
     243, 38, 20, 128, 220, 24, 194, 179, 70, 169, 160, 28],
    [198, 123, 74, 104, 202, 32, 61, 240, 51, 94, 111, 182, 36, 122, 130, 150, 62, 80, 89, 255,
     161, 142, 26, 242, 207, 185, 133, 129, 254, 165, 170, 0],
    [37, 132, 186, 12, 74, 180, 105, 226, 213, 211, 193, 225, 27, 50, 138, 4, 63, 92, 234, 13, 17,
     8, 83, 158, 236, 140, 4, 107, 19, 189, 227, 31],
    [110, 88, 234, 59, 103, 185, 212, 46, 227, 64, 178, 47, 204, 121, 184, 122, 140, 228, 122,
     122, 109, 4, 4, 203, 29, 99, 252, 22, 192, 185, 82, 32],
    [245, 111, 221, 89, 163, 253, 120, 251, 192, 102, 179, 28, 32, 160, 220, 2, 210, 250, 182, 48,
     149, 102, 78, 135, 242, 178, 240, 129, 158, 28, 194, 45],
    [80, 180, 254, 174, 183, 151, 82, 229, 123, 24, 44, 98, 7, 166, 152, 78, 191, 94, 109, 201,
     215, 229, 108, 66, 136, 150, 102, 80, 152, 67, 183, 24],
    [130, 154, 1, 250, 228, 248, 226, 43, 27, 76, 165, 173, 91, 84, 165, 131, 78, 224, 152, 167,
     123, 115, 91, 213, 116, 49, 167, 101, 109, 41, 161, 8]]

variable (poseidon : PoseidonScalars)

def getDefault (level : ℕ) : Except Failure ReprScalar :=
  match defaultValues[level]? with
  | none => .error .typeError
  | some value => .ok (poseidon.montToRepr value)

/-- Values that are not set are stored as zeros. -/
def parseTreeBytesToBigInt (bytesMontgomery : Option MontScalar) (level : ℕ) : Except Failure ℕ :=
  match bytesMontgomery with
  | none => .error .typeError
  | some bytes =>
      if bytes = zeros 32 then (getDefault poseidon level).map ofLeBytes
      else .ok (ofLeBytes (poseidon.montToRepr bytes))

def getOpeningIndicesInner (index : ℕ) : ℕ → List LocalIndex
  | 0 => []
  | layer + 1 =>
      let partnerIndex := if index % 2 = 0 then index + 1 else index - 1
      ⟨layer + 1, partnerIndex⟩ :: getOpeningIndicesInner (index / 2) layer

def getOpeningIndices (index : LocalIndex) : List LocalIndex :=
  getOpeningIndicesInner index.index index.level

/-- The id of an index in the set of indices to read. -/
def indexId (l : LocalIndex) : String := toString l.index ++ "_" ++ toString l.level

/-- The value of one sibling among the commitments that were read. -/
def siblingValue (openingBytes : List (String × Option MontScalar)) (oIndex : LocalIndex) :
    Except Failure ℕ :=
  match mapGet openingBytes (localIndexToString oIndex) with
  | none => .error COULD_NOT_FIND_COMMITMENT
  | some val => parseTreeBytesToBigInt poseidon val oIndex.level

def getOpenings (reads : TreeReads) (leafIndices : List LocalIndex) :
    Except Failure (List (List ℕ) × ℕ) := do
  let openingIndices := leafIndices.map getOpeningIndices
  let uniqueIndices := openingIndices.flatten.foldl (addToSet indexId) []
  let res ← getCommitmentsAtLocalIndices uniqueIndices reads.openingAcc reads.siblingChunks
    reads.rootChunk
  let openings ← openingIndices.mapM fun opening => opening.mapM (siblingValue poseidon res.1)
  let rootBytes ← res.2
  let root ← parseTreeBytesToBigInt poseidon rootBytes 0
  pure (openings, root)

/-- Every conversion makes an array of its own. -/
def getCommitmentIndices (reads : TreeReads) (commitments : List (ReprScalar × LocalIndex)) :
    Except Failure (List LocalIndex) := do
  let commsMont := commitments.zipIdx.map fun (c, i) => (MontArray.mk i (poseidon.reprToMont c.1), c.2)
  let globalIndices ← findCommitmentIndicesFromStartIndex commsMont reads.searchChunks
    reads.searchAcc
  commsMont.mapM fun c =>
    match globalIndices.get c.1 with
    | none => .error COULD_NOT_FIND_COMMITMENT
    | some gIndex => IndexConverter.globalIndexToLocalIndex gIndex

/-- Each commitment comes with the leaf from which on it is looked for. -/
def getCommitmentsInfo (reads : TreeReads) (commitments : List (ReprScalar × ℕ)) :
    Except Failure (List CommitmentInfo) := do
  let starts ← commitments.mapM fun c => do
    let start ← IndexConverter.leafIndexToLocalIndex c.2
    pure (c.1, start)
  let commitmentIndices ← getCommitmentIndices poseidon reads starts
  let ops ← getOpenings poseidon reads commitmentIndices
  if ops.1.length ≠ commitmentIndices.length ∧ commitmentIndices.length ≠ commitments.length then
    .error (.error (INVALID_SIZE "commIndices" commitmentIndices.length commitments.length))
  else
    pure ((commitmentIndices.zip ops.1).map fun (index, opening) =>
      { index := index.index, opening := opening, root := ops.2 })

end TreeManager

end ElusivSdk
