import Zoomies.BitStream
import Zoomies.Interleave
import Zoomies.QrReedSolomon

/-! The QR encoder (`internal/qr/qr.go`): byte mode, error correction level M, versions 1 to 10. -/
namespace Zoomies.Qr

def errTooLong : String :=
  "qr: data is too long for a version 10 code at error correction level M"

structure EcBlocks where
  ecPerBlock : Nat
  g1Blocks : Nat
  g1Data : Nat
  g2Blocks : Nat
  g2Data : Nat
  deriving DecidableEq

def levelM : Nat → EcBlocks
  | 1 => ⟨10, 1, 16, 0, 0⟩
  | 2 => ⟨16, 1, 28, 0, 0⟩
  | 3 => ⟨26, 1, 44, 0, 0⟩
  | 4 => ⟨18, 2, 32, 0, 0⟩
  | 5 => ⟨24, 2, 43, 0, 0⟩
  | 6 => ⟨16, 4, 27, 0, 0⟩
  | 7 => ⟨18, 4, 31, 0, 0⟩
  | 8 => ⟨22, 2, 38, 2, 39⟩
  | 9 => ⟨22, 3, 36, 2, 37⟩
  | 10 => ⟨26, 4, 43, 1, 44⟩
  | _ => ⟨0, 0, 0, 0, 0⟩

def alignment : Nat → List Int
  | 2 => [6, 18]
  | 3 => [6, 22]
  | 4 => [6, 26]
  | 5 => [6, 30]
  | 6 => [6, 34]
  | 7 => [6, 22, 38]
  | 8 => [6, 24, 42]
  | 9 => [6, 26, 46]
  | 10 => [6, 28, 50]
  | _ => []

def maxVersion : Nat := 10

def EcBlocks.dataCodewords (b : EcBlocks) : Nat := b.g1Blocks * b.g1Data + b.g2Blocks * b.g2Data

section

def countBits (version : Nat) : Nat := if version ≥ 10 then 16 else 8

def bytes (bits : List Bool) : List Byte :=
  bits.zipIdx.foldl (fun out e =>
    if e.1 then out.modify (e.2 / 8) (· ||| 1#8 <<< (7 - e.2 % 8)) else out)
    (List.replicate (bits.length / 8) 0)

def terminate (capacity : Nat) (bits : List Bool) : List Bool :=
  (List.range 4).foldl (fun bits _ => if bits.length < capacity then bits ++ [false] else bits) bits

def fillByte (bits : List Bool) : List Bool :=
  bits ++ List.replicate ((8 - bits.length % 8) % 8) false

def padByte (pad : Nat) : Byte := if pad % 2 = 0 then 0xEC else 0x11

def dataCodewords (version : Nat) (data : List Byte) : List Byte :=
  let bits := numberBits 4 4 ++ numberBits data.length (countBits version) ++ bytesBits data
  let capacity := 8 * (levelM version).dataCodewords
  let out := bytes (fillByte (terminate capacity bits))
  out ++ (List.range (capacity / 8 - out.length)).map padByte

def EcBlocks.sizes (b : EcBlocks) : List Nat :=
  List.replicate b.g1Blocks b.g1Data ++ List.replicate b.g2Blocks b.g2Data

def interleave (version : Nat) (data : List Byte) : List Byte :=
  let b := levelM version
  let blocks := cutBlocks b.sizes data
  let ecc := blocks.map fun blk => reedSolomon blk b.ecPerBlock
  let longest := if b.g2Data > b.g1Data then b.g2Data else b.g1Data
  sendRounds blocks longest ++ sendRounds ecc b.ecPerBlock

end

abbrev Cell := Int × Int

structure Code where
  version : Nat
  mask : Nat
  size : Int
  modules : Cell → Bool
  reservedMap : Cell → Bool

def upTo (a b : Int) : List Int :=
  (List.range (b + 1 - a).toNat).map fun i : Nat => a + (i : Int)

def bchReduce (poly degree width rem : Nat) : Nat :=
  ((List.range (width - degree)).map fun j => width - 1 - j).foldl
    (fun rem i => if rem.testBit i then rem ^^^ poly <<< (i - degree) else rem) rem

def formatBits (mask : Nat) : Nat :=
  let data := 0b00 <<< 3 ||| mask
  (data <<< 10 ||| bchReduce 0x537 10 15 (data <<< 10)) ^^^ 0x5412

def versionBits (version : Nat) : Nat :=
  version <<< 12 ||| bchReduce 0x1F25 12 18 (version <<< 12)

section

variable (version : Nat) (n : Int) (c : Code)

def Code.setAll (cells : List (Cell × Bool)) : Code :=
  { c with
    modules := writeAll cells c.modules
    reservedMap := writeAll (cells.map fun e => (e.1, true)) c.reservedMap }

def Code.reserveAll (cells : List Cell) : Code :=
  { c with reservedMap := writeAll (cells.map fun cell => (cell, true)) c.reservedMap }

def finderCells : List (Cell × Bool) :=
  [((0 : Int), (0 : Int)), (n - 7, 0), (0, n - 7)].flatMap fun corner =>
    (upTo (-1) 7).flatMap fun dy => (upTo (-1) 7).filterMap fun dx =>
      let x := corner.1 + dx
      let y := corner.2 + dy
      if x < 0 ∨ y < 0 ∨ x ≥ n ∨ y ≥ n then none
      else
        let ring := max |dx - 3| |dy - 3|
        some ((x, y), ring != 2 && ring != 4)

def timingCells : List (Cell × Bool) :=
  (upTo 8 (n - 8 - 1)).flatMap fun i => [((i, 6), i % 2 == 0), ((6, i), i % 2 == 0)]

def alignmentCentres : List Cell :=
  let centres := (alignment version).zipIdx
  let last := centres.length - 1
  centres.flatMap fun cy => centres.filterMap fun cx =>
    if (cy.2 = 0 ∧ cx.2 = 0) ∨ (cy.2 = 0 ∧ cx.2 = last) ∨ (cy.2 = last ∧ cx.2 = 0) then none
    else some (cx.1, cy.1)

def alignmentCells : List (Cell × Bool) :=
  (alignmentCentres version).flatMap fun centre =>
    (upTo (-2) 2).flatMap fun dy => (upTo (-2) 2).map fun dx =>
      ((centre.1 + dx, centre.2 + dy), max |dx| |dy| != 1)

def formatArea : List Cell :=
  ((upTo 0 8).flatMap fun i => [(i, 8), (8, i)]) ++
    (upTo 0 7).flatMap fun i => [(n - 1 - i, 8), (8, n - 1 - i)]

def versionCells : List (Cell × Bool) :=
  if version ≥ 7 then
    (upTo 0 17).flatMap fun i =>
      let dark := (versionBits version).testBit i.toNat
      let a := i / 3
      let b := n - 11 + i % 3
      [((a, b), dark), ((b, a), dark)]
  else []

def Code.placeFunctionPatterns : Code :=
  let n := c.size
  let c := c.setAll (finderCells n)
  let c := c.setAll (timingCells n)
  let c := c.setAll (alignmentCells c.version)
  let c := c.reserveAll (formatArea n)
  let c := c.setAll [((8, n - 8), true)]
  c.setAll (versionCells c.version n)

def newCode : Code :=
  Code.placeFunctionPatterns
    { version := version
      mask := 0
      size := 17 + 4 * version
      modules := fun _ => false
      reservedMap := fun _ => false }

end

section

def maskAt (mask : Nat) (x y : Int) : Bool :=
  match mask with
  | 0 => (x + y) % 2 == 0
  | 1 => y % 2 == 0
  | 2 => x % 3 == 0
  | 3 => (x + y) % 3 == 0
  | 4 => (y / 2 + x / 3) % 2 == 0
  | 5 => x * y % 2 + x * y % 3 == 0
  | 6 => (x * y % 2 + x * y % 3) % 2 == 0
  | _ => ((x + y) % 2 + x * y % 3) % 2 == 0

def rightColumns : Nat → List Nat
  | 0 => []
  | 1 => [1]
  | 6 => 5 :: rightColumns 3
  | right + 2 => (right + 2) :: rightColumns right

def zigzagFrom (n : Int) : List Nat → Bool → List Cell
  | [], _ => []
  | right :: rest, upward =>
    ((upTo 0 (n - 1)).flatMap fun i =>
      let y := if upward then n - 1 - i else i
      [((right : Int), y), ((right : Int) - 1, y)]) ++ zigzagFrom n rest (!upward)

def zigzag (n : Int) : List Cell := zigzagFrom n (rightColumns (n - 1).toNat) true

def placeModule (reservedMap : Cell → Bool) (codewords : List Byte) (mask : Nat)
    (s : Nat × (Cell → Bool)) (cell : Cell) : Nat × (Cell → Bool) :=
  if reservedMap cell then s
  else
    let dark := s.1 < 8 * codewords.length && bitAt codewords s.1
    let bit := if s.1 < 8 * codewords.length then s.1 + 1 else s.1
    let dark := if maskAt mask cell.1 cell.2 then !dark else dark
    (bit, Function.update s.2 cell dark)

def Code.placeData (c : Code) (codewords : List Byte) (mask : Nat) : Code :=
  { c with
    modules := ((zigzag c.size).foldl (placeModule c.reservedMap codewords mask) (0, c.modules)).2 }

def formatCells : List Cell :=
  ((upTo 0 5).map fun i => (8, i)) ++ [(8, 7), (8, 8), (7, 8)] ++ (upTo 9 14).map fun i => (14 - i, 8)

def formatCellsSplit (n : Int) : List Cell :=
  ((upTo 0 7).map fun i => (n - 1 - i, 8)) ++ (upTo 8 14).map fun i => (8, n - 15 + i)

def Code.placeFormat (c : Code) (mask : Nat) : Code :=
  let bits := (List.range 15).map (formatBits mask).testBit
  { c with
    modules := writeAll
      (formatCells.zip bits ++ (formatCellsSplit c.size).zip bits ++ [((8, c.size - 8), true)])
      c.modules }

def withMask (version : Nat) (codewords : List Byte) (mask : Nat) : Code :=
  let c := newCode version
  let c := { c with mask := mask }
  (c.placeData codewords mask).placeFormat mask

end

section

def lineScore (line : Int → Bool) (n : Int) : Int :=
  let ended (run : Int) : Int := if run ≥ 5 then run - 2 else 0
  let s := (upTo 1 (n - 1)).foldl (fun s i =>
    if line i = line (i - 1) then (s.1 + 1, s.2) else (1, s.2 + ended s.1)) ((1 : Int), (0 : Int))
  s.2 + ended s.1

def finderLike : List Bool :=
  [true, false, true, true, true, false, true, false, false, false, false]

def Code.penalty (c : Code) : Int :=
  let n := c.size
  let rows := upTo 0 (n - 1)
  let runs := (rows.map fun y =>
    lineScore (fun i => c.modules (i, y)) n + lineScore (fun i => c.modules (y, i)) n).sum
  let squares := ((upTo 0 (n - 2)).map fun y => ((upTo 0 (n - 2)).map fun x =>
    let d := c.modules (x, y)
    if c.modules (x + 1, y) = d ∧ c.modules (x, y + 1) = d ∧ c.modules (x + 1, y + 1) = d then 3
    else 0).sum).sum
  let hit (cell : Int → Cell) (p : List Bool) : Int :=
    if p.zipIdx.all (fun e => c.modules (cell e.2) == e.1) then 40 else 0
  let finders := (rows.map fun y => ((upTo 0 (n - 11)).map fun x =>
    hit (fun k => (x + k, y)) finderLike + hit (fun k => (x + 11 - 1 - k, y)) finderLike +
      hit (fun k => (y, x + k)) finderLike + hit (fun k => (y, x + 11 - 1 - k)) finderLike).sum).sum
  let dark := (rows.map fun y =>
    (rows.map fun x => if c.modules (x, y) then (1 : Int) else 0).sum).sum
  let percent := dark * 100 / (n * n)
  runs + squares + finders + |percent - 50| / 5 * 10

end

def fits (length version : Nat) : Bool :=
  4 + countBits version + 8 * length ≤ 8 * (levelM version).dataCodewords

def bestMask (version : Nat) (codewords : List Byte) : Code :=
  (List.range' 1 7).foldl (fun best mask =>
    let c := withMask version codewords mask
    if c.penalty < best.penalty then c else best) (withMask version codewords 0)

def encode (data : List Byte) : Except String Code :=
  match (List.range' 1 maxVersion).find? (fits data.length) with
  | none => .error errTooLong
  | some version => .ok (bestMask version (interleave version (dataCodewords version data)))

section

variable (n : Int) (version : Nat) (c : Cell)

def symbolSize : Int := 17 + 4 * version

def finderModule : Bool :=
  (c.1 ≤ 7 && c.2 ≤ 7) || (n - 8 ≤ c.1 && c.2 ≤ 7) || (c.1 ≤ 7 && n - 8 ≤ c.2)

def timingModule : Bool :=
  (c.2 == 6 && 8 ≤ c.1 && c.1 ≤ n - 9) || (c.1 == 6 && 8 ≤ c.2 && c.2 ≤ n - 9)

def alignmentModule : Bool :=
  (alignment version).any fun cy => (alignment version).any fun cx =>
    !finderModule (symbolSize version) (cx, cy) &&
      (cx - 2 ≤ c.1 && c.1 ≤ cx + 2 && cy - 2 ≤ c.2 && c.2 ≤ cy + 2)

def versionModule : Bool :=
  let n := symbolSize version
  7 ≤ version && ((c.1 ≤ 5 && n - 11 ≤ c.2 && c.2 ≤ n - 9) ||
    (c.2 ≤ 5 && n - 11 ≤ c.1 && c.1 ≤ n - 9))

def formatModule : Bool :=
  (c.2 == 8 && (c.1 ≤ 8 || n - 8 ≤ c.1)) || (c.1 == 8 && (c.2 ≤ 8 || n - 8 ≤ c.2))

def patternModule : Bool :=
  finderModule (symbolSize version) c || timingModule (symbolSize version) c ||
    alignmentModule version c || versionModule version c

def functionModule : Bool :=
  patternModule version c || formatModule (symbolSize version) c

end

section

variable (version : Nat) (n : Int)

def pairColumn (k : Nat) : Int :=
  if n - 1 - 2 * k > 6 then n - 1 - 2 * k else n - 2 - 2 * k

def readingPath : List Cell :=
  (List.range ((n - 1) / 2).toNat).flatMap fun k => (upTo 0 (n - 1)).flatMap fun i =>
    let y := if k % 2 = 0 then n - 1 - i else i
    [(pairColumn n k, y), (pairColumn n k - 1, y)]

def dataModules : List Cell :=
  (readingPath (symbolSize version)).filter fun c => !functionModule version c

def inverted (mask : Nat) (i j : Int) : Bool :=
  match mask with
  | 0 => (i + j) % 2 == 0
  | 1 => i % 2 == 0
  | 2 => j % 3 == 0
  | 3 => (i + j) % 3 == 0
  | 4 => (i / 2 + j / 3) % 2 == 0
  | 5 => i * j % 2 + i * j % 3 == 0
  | 6 => (i * j % 2 + i * j % 3) % 2 == 0
  | _ => ((i + j) % 2 + i * j % 3) % 2 == 0

inductive FormatCopy
  | corner
  | split
  deriving DecidableEq

def FormatCopy.cells : FormatCopy → List Cell
  | .corner => formatCells
  | .split => formatCellsSplit n

def formatWord (modules : Cell → Bool) (copy : FormatCopy) : Nat :=
  bitsNumber ((copy.cells n).map modules).reverse

def readMask (word : Nat) : Option Nat :=
  let word := word ^^^ 0x5412
  if bchReduce 0x537 10 15 word = 0 ∧ word >>> 13 = 0 then some (word >>> 10) else none

def deinterleave (codewords : List Byte) : List (List Byte × List Byte) :=
  let b := levelM version
  let data := dealRounds b.sizes (b.sizes.foldl max 0) codewords
  let ecc := dealRounds (List.replicate b.sizes.length b.ecPerBlock) b.ecPerBlock data.2
  data.1.zip ecc.1

def totalCodewords : Nat :=
  (levelM version).sizes.sum + (levelM version).sizes.length * (levelM version).ecPerBlock

def parseSegment (bits : List Bool) : Option (List Byte) :=
  if bitsNumber (bits.take 4) = 4 then
    let count := bitsNumber ((bits.drop 4).take (countBits version))
    let body := (bits.drop (4 + countBits version)).take (8 * count)
    if body.length = 8 * count then some (bitsBytes body) else none
  else none

def readSymbol (modules : Cell → Bool) (copy : FormatCopy) : Option (List Byte) := do
  let mask ← readMask (formatWord (symbolSize version) modules copy)
  let bits := (dataModules version).map fun c => modules c ^^ inverted mask c.2 c.1
  let blocks := deinterleave version (bitsBytes (bits.take (8 * totalCodewords version)))
  if blocks.all fun b => isCodeword (levelM version).ecPerBlock (b.1 ++ b.2) then
    parseSegment version (bytesBits (blocks.flatMap Prod.fst))
  else none

end
end Zoomies.Qr
