import Zoomies.QrSymbol
import Mathlib.Data.Set.Card
import Zoomies.QrPlacement

/-! A symbol the encoder makes reads back as the text it was made of. -/
namespace Zoomies.Qr
open List

section

theorem foldl_byte (l : List Bool) {j : Nat} (t : Nat) (done rest : List Byte) (x : Byte)
    (hj : done.length = j) (ht : t + l.length ≤ 8) : (l.zipIdx (8 * j + t)).foldl (fun out e =>
        if e.1 then out.modify (e.2 / 8) (· ||| 1#8 <<< (7 - e.2 % 8)) else out)
        (done ++ x :: rest) =
      done ++ (l.zipIdx t).foldl (fun x e => if e.1 then x ||| 1#8 <<< (7 - e.2) else x) x ::
        rest := by
  induction l generalizing t x with
  | nil => rfl
  | cons b l ih =>
    rw [length_cons] at ht
    have hdiv : (8 * j + t) / 8 = j := by omega
    have hmod : (8 * j + t) % 8 = t := by omega
    have hset : ∀ f : Byte → Byte, (done ++ x :: rest).modify j f = done ++ f x :: rest := by
      intro f
      rw [modify_eq_take_drop, ← hj, take_left, drop_left, modifyHead_cons]
    rw [zipIdx_cons, zipIdx_cons, foldl_cons, foldl_cons]
    rw [hdiv, hmod, hset, Nat.add_assoc, ← ih (t + 1) _ (by omega)]
    cases b <;> rfl

theorem foldl_numberBits (b : Byte) : ((numberBits b.toNat 8).zipIdx).foldl
      (fun x e => if e.1 then x ||| 1#8 <<< (7 - e.2) else x) 0 = b := by
  revert b
  decide +kernel

theorem bytes_bytesBits (bs : List Byte) : bytes (bytesBits bs) = bs := by
  have hsteps : ∀ (bs done : List Byte), ((bytesBits bs).zipIdx (8 * done.length)).foldl (fun out e =>
      if e.1 then out.modify (e.2 / 8) (· ||| 1#8 <<< (7 - e.2 % 8)) else out)
      (done ++ List.replicate bs.length 0) = done ++ bs := by
    intro bs
    induction bs with
    | nil => intro done; rfl
    | cons b bs ih =>
      intro done
      have hfirst := foldl_byte (numberBits b.toNat 8) 0 done
        (List.replicate bs.length 0) 0 rfl (by rw [length_numberBits])
      rw [foldl_numberBits, Nat.add_zero] at hfirst
      rw [bytesBits, flatMap_cons, zipIdx_append, foldl_append, length_cons,
        replicate_succ, hfirst, length_numberBits]
      have hrest := ih (done ++ [b])
      rw [length_append, length_singleton, append_assoc, append_assoc] at hrest
      exact hrest
  have hlen : (bytesBits bs).length / 8 = bs.length := by
    rw [length_bytesBits]
    omega
  rw [bytes, hlen]
  exact hsteps bs []

end

section

def segmentBits (version : Nat) (data : List Byte) : List Bool :=
  numberBits 4 4 ++ numberBits data.length (countBits version) ++ bytesBits data

theorem length_segmentBits (version : Nat) (data : List Byte) :
    (segmentBits version data).length = 4 + countBits version + 8 * data.length := by
  rw [segmentBits, length_append, length_append, length_numberBits, length_numberBits,
    length_bytesBits]

theorem parseSegment_append {version : Nat} {data : List Byte} {rest : List Bool}
    (h : data.length < 2 ^ countBits version) :
    parseSegment version (segmentBits version data ++ rest) = some data := by
  have hmode : (segmentBits version data ++ rest).take 4 = numberBits 4 4 := by
    exact take_left' length_numberBits
  have hdrop : (segmentBits version data ++ rest).drop 4 =
      numberBits data.length (countBits version) ++ (bytesBits data ++ rest) := by
    rw [segmentBits, append_assoc, append_assoc]
    exact drop_left' length_numberBits
  have hbody : (segmentBits version data ++ rest).drop (4 + countBits version) =
      bytesBits data ++ rest := by
    rw [← drop_drop, hdrop]
    exact drop_left' length_numberBits
  have hcount : bitsNumber (((segmentBits version data ++ rest).drop 4).take (countBits version)) =
      data.length := by
    rw [hdrop, take_left' length_numberBits, bitsNumber_numberBits, Nat.mod_eq_of_lt h]
  have hbytes : (bytesBits data ++ rest).take (8 * data.length) = bytesBits data :=
    take_left' length_bytesBits
  rw [parseSegment, hmode, bitsNumber_numberBits, if_pos (by decide), hcount, hbody]
  dsimp only
  rw [hbytes, if_pos length_bytesBits]
  have hread := bitsBytes_append data []
  rw [append_nil] at hread
  rw [hread]
  exact congrArg some (append_nil data)

theorem terminate_eq {capacity : Nat} {bits : List Bool} (h : bits.length ≤ capacity) :
    ∃ t, terminate capacity bits = bits ++ List.replicate t false ∧ bits.length + t ≤ capacity := by
  have hsteps : ∀ (l : List Nat), ∃ t, l.foldl (fun bits _ =>
      if bits.length < capacity then bits ++ [false] else bits) bits =
        bits ++ List.replicate t false ∧ bits.length + t ≤ capacity := by
    intro l
    induction l using List.reverseRecOn with
    | nil => exact ⟨0, (append_nil bits).symm, h⟩
    | append_singleton l i ih =>
      obtain ⟨t, ht, hle⟩ := ih
      rw [foldl_append, foldl_cons, foldl_nil, ht]
      by_cases hroom : (bits ++ List.replicate t false).length < capacity
      · rw [if_pos hroom]
        rw [length_append, length_replicate] at hroom
        exact ⟨t + 1, by rw [replicate_succ', append_assoc], by omega⟩
      · rw [if_neg hroom]
        exact ⟨t, rfl, hle⟩
  exact hsteps _

theorem filled_eq {codewords : Nat} {bits : List Bool} (h : bits.length ≤ 8 * codewords) :
    ∃ bs zeros, fillByte (terminate (8 * codewords) bits) = bytesBits bs ∧
      bytesBits bs = bits ++ zeros ∧ bs.length ≤ codewords := by
  obtain ⟨t, ht, hle⟩ := terminate_eq h
  have hlen : (terminate (8 * codewords) bits).length = bits.length + t := by
    rw [ht, length_append, length_replicate]
  have hfill : (fillByte (terminate (8 * codewords) bits)).length =
      8 * ((bits.length + t + 7) / 8) := by
    rw [fillByte, length_append, length_replicate, hlen]
    omega
  obtain ⟨bs, hbs, hn⟩ := exists_bytesBits _ hfill
  refine ⟨bs, List.replicate t false ++
    List.replicate ((8 - (terminate (8 * codewords) bits).length % 8) % 8) false, hbs.symm, ?_, ?_⟩
  · rw [hbs, fillByte, ← append_assoc]
    congr 1
  · omega

theorem dataCodewords_spec {version : Nat} {data : List Byte}
    (h : fits data.length version = true) :
    (dataCodewords version data).length = (levelM version).dataCodewords ∧
      ∃ rest, bytesBits (dataCodewords version data) = segmentBits version data ++ rest := by
  have hfits : 4 + countBits version + 8 * data.length ≤ 8 * (levelM version).dataCodewords :=
    of_decide_eq_true h
  rw [← length_segmentBits] at hfits
  obtain ⟨bs, zeros, hfill, hbits, hle⟩ := filled_eq hfits
  have hout : dataCodewords version data =
      bs ++ (List.range ((levelM version).dataCodewords - bs.length)).map padByte := by
    rw [dataCodewords, ← segmentBits, hfill, bytes_bytesBits, Nat.mul_div_cancel_left _ (by decide)]
  rw [hout]
  constructor
  · rw [length_append, length_map, length_range]
    omega
  refine ⟨zeros ++ bytesBits
    ((List.range ((levelM version).dataCodewords - bs.length)).map padByte), ?_⟩
  rw [bytesBits, flatMap_append, ← bytesBits, hbits, append_assoc]

end

section

structure BlockFacts (b : EcBlocks) : Prop where
  ecPos : 0 < b.ecPerBlock
  ecSmall : b.ecPerBlock < 510
  whole : b.sizes.sum = b.dataCodewords
  longest : (if b.g2Data > b.g1Data then b.g2Data else b.g1Data) = b.sizes.foldl max 0
  within : ∀ size ∈ b.sizes, size ≤ b.sizes.foldl max 0

theorem levelM_facts {version : Nat} (h1 : 1 ≤ version) (h10 : version ≤ 10) :
    BlockFacts (levelM version) := by
  have hall : ∀ v ∈ List.range' 1 10, 0 < (levelM v).ecPerBlock ∧ (levelM v).ecPerBlock < 510 ∧
      (levelM v).sizes.sum = (levelM v).dataCodewords ∧
      (if (levelM v).g2Data > (levelM v).g1Data then (levelM v).g2Data else (levelM v).g1Data) =
        (levelM v).sizes.foldl max 0 ∧
      ∀ size ∈ (levelM v).sizes, size ≤ (levelM v).sizes.foldl max 0 := by
    decide
  obtain ⟨ecPos, ecSmall, whole, longest, within⟩ :=
    hall version (mem_range'_1.mpr (by omega))
  exact ⟨ecPos, ecSmall, whole, longest, within⟩

variable (version : Nat) (hb : BlockFacts (levelM version)) (data : List Byte)
  (hlen : data.length = (levelM version).dataCodewords)
include hb hlen

def dataBlocks (version : Nat) (data : List Byte) : List (List Byte) :=
  cutBlocks (levelM version).sizes data

def eccBlocks (version : Nat) (data : List Byte) : List (List Byte) :=
  (dataBlocks version data).map fun blk => reedSolomon blk (levelM version).ecPerBlock

variable {version}

omit hb hlen in
theorem interleave_eq (hlong : (if (levelM version).g2Data > (levelM version).g1Data then
      (levelM version).g2Data else (levelM version).g1Data) = (levelM version).sizes.foldl max 0) :
    interleave version data =
      sendRounds (dataBlocks version data) ((levelM version).sizes.foldl max 0) ++
        sendRounds (eccBlocks version data) (levelM version).ecPerBlock := by
  rw [interleave, hlong]
  rfl

theorem dataBlocks_lengths : (dataBlocks version data).map List.length = (levelM version).sizes := by
  apply cutBlocks_lengths
  rw [hb.whole, hlen]

theorem dataBlocks_within : ∀ b ∈ dataBlocks version data,
    b.length ≤ (levelM version).sizes.foldl max 0 := by
  intro b hmem
  apply hb.within
  rw [← dataBlocks_lengths hb data hlen]
  exact mem_map_of_mem hmem

theorem eccBlocks_lengths : (eccBlocks version data).map List.length =
    List.replicate (levelM version).sizes.length (levelM version).ecPerBlock := by
  have hconst : (eccBlocks version data).map List.length =
      (dataBlocks version data).map fun _ => (levelM version).ecPerBlock := by
    rw [eccBlocks, map_map]
    apply map_congr_left
    intro blk _
    exact length_reedSolomon blk hb.ecSmall hb.ecPos
  rw [hconst, map_const', ← dataBlocks_lengths hb data hlen, length_map]

omit hlen in
theorem eccBlocks_within : ∀ b ∈ eccBlocks version data, b.length ≤ (levelM version).ecPerBlock := by
  intro b hmem
  obtain ⟨blk, -, rfl⟩ := mem_map.mp hmem
  exact (length_reedSolomon blk hb.ecSmall hb.ecPos).le

theorem length_interleave : (interleave version data).length = totalCodewords version := by
  rw [interleave_eq data hb.longest, length_append,
    length_sendRounds (dataBlocks_within hb data hlen),
    length_sendRounds (eccBlocks_within hb data),
    dataBlocks_lengths hb data hlen, eccBlocks_lengths hb data hlen,
    sum_replicate, totalCodewords, smul_eq_mul]

theorem deinterleave_interleave : deinterleave version (interleave version data) =
    (dataBlocks version data).map fun blk => (blk, reedSolomon blk (levelM version).ecPerBlock) := by
  have hdata := dealRounds_whole (sendRounds (eccBlocks version data) (levelM version).ecPerBlock)
    (dataBlocks_within hb data hlen)
  have hecc := dealRounds_whole [] (eccBlocks_within hb data)
  rw [dataBlocks_lengths hb data hlen] at hdata
  rw [eccBlocks_lengths hb data hlen, append_nil] at hecc
  rw [deinterleave, interleave_eq data hb.longest, hdata]
  rw [hecc, eccBlocks]
  exact map_prod_left_eq_zip.symm

theorem flatten_dataBlocks : (dataBlocks version data).flatten = data := by
  apply flatten_cutBlocks
  rw [hb.whole, hlen]

end

theorem codewords_read {version : Nat} (hb : BlockFacts (levelM version)) {data : List Byte}
    (hfits : fits data.length version = true) (hcount : data.length < 2 ^ countBits version) :
    let codewords := interleave version (dataCodewords version data)
    codewords.length = totalCodewords version ∧ (deinterleave version codewords).all
        (fun b => isCodeword (levelM version).ecPerBlock (b.1 ++ b.2)) = true ∧
      parseSegment version (bytesBits ((deinterleave version codewords).flatMap Prod.fst)) =
        some data := by
  obtain ⟨hlen, rest, hbits⟩ := dataCodewords_spec hfits
  dsimp only
  rw [deinterleave_interleave hb _ hlen]
  refine ⟨length_interleave hb _ hlen, ?_, ?_⟩
  · rw [all_eq_true]
    intro b hmem
    obtain ⟨blk, -, rfl⟩ := mem_map.mp hmem
    exact isCodeword_reedSolomon blk hb.ecSmall hb.ecPos
  have hflat : ((dataBlocks version (dataCodewords version data)).map fun blk =>
      (blk, reedSolomon blk (levelM version).ecPerBlock)).flatMap Prod.fst =
      dataCodewords version data := by
    rw [flatMap_map]
    exact flatMap_id.trans (flatten_dataBlocks hb _ hlen)
  rw [hflat, hbits, parseSegment_append hcount]

section
variable {version : Nat} (h1 : 1 ≤ version) (h10 : version ≤ 10)
include h1 h10

theorem placed_eq : ((zigzag (symbolSize version)).filter fun c =>
    !(newCode version).reservedMap c) = dataModules version := by
  rw [zigzag_eq h1 h10, dataModules]
  apply filter_congr
  intro c hc
  have hin : InSymbol (symbolSize version) c := by
    rw [mem_readingPath (symbolWide h1)] at hc
    rw [InSymbol]
    omega
  have hiff := reserved_iff version h1 h10 c
  congr 1
  rw [Bool.eq_iff_iff, hiff]
  exact and_iff_right hin

theorem version_mem : version ∈ List.range' 1 10 := mem_range'_1.mpr (by omega)

theorem placed_modules {modules : Cell → Bool} (codewords : List Byte) (mask : Nat) (c : Code)
    (hsize : c.size = symbolSize version) (hreserved : c.reservedMap = (newCode version).reservedMap)
    (hmodules : c.modules = modules) : ((c.placeData codewords mask).placeFormat mask).modules =
      writeAll (formatEntries (symbolSize version) mask)
        (writeAll (dataWrites codewords mask (dataModules version) 0) modules) := by
  have hdata := placeData_modules codewords mask c
  rw [hsize, hreserved, placed_eq h1 h10, hmodules] at hdata
  rw [← hdata, ← hsize]
  rfl

theorem pattern_untouched {modules : Cell → Bool} {codewords : List Byte} {mask : Nat} {cell : Cell}
    (hp : patternModule version cell = true) : writeAll (formatEntries (symbolSize version) mask)
      (writeAll (dataWrites codewords mask (dataModules version) 0) modules) cell = modules cell := by
  obtain ⟨-, hfacts⟩ := formatPlaces_facts version (version_mem h1 h10)
  rw [writeAll_other, writeAll_other]
  · rw [dataWrites_fst, mem_dataModules h1]
    rintro ⟨-, hf⟩
    rw [functionModule, hp, Bool.true_or] at hf
    exact Bool.noConfusion hf
  intro hmem
  rw [(hfacts cell hmem).2] at hp
  exact Bool.noConfusion hp

variable {modules : Cell → Bool} {codewords : List Byte} {mask : Nat}

theorem formatWord_eq (hm : mask < 8) {copy : FormatCopy} :
    formatWord (symbolSize version) (writeAll (formatEntries (symbolSize version) mask) modules) copy =
      formatBits mask := by
  obtain ⟨hnodup, -⟩ := formatPlaces_facts version (version_mem h1 h10)
  have hkeys : ((formatEntries (symbolSize version) mask).map Prod.fst).Nodup := by
    exact hnodup
  have hread : (copy.cells (symbolSize version)).map
      (writeAll (formatEntries (symbolSize version) mask) modules) =
      (List.range 15).map (formatBits mask).testBit := by
    apply map_writeAll hkeys
    · rw [length_copy, length_map, length_range]
    cases copy with
    | corner => exact fun e he => mem_append_left _ (mem_append_left _ he)
    | split => exact fun e he => mem_append_left _ (mem_append_right _ he)
  have hbits : ((List.range 15).map (formatBits mask).testBit).reverse =
      numberBits (formatBits mask) 15 := rfl
  rw [formatWord, hread, hbits, bitsNumber_numberBits, Nat.mod_eq_of_lt (formatBits_facts mask hm).1]

theorem read_data (hlen : codewords.length = totalCodewords version) :
    bitsBytes (((dataModules version).map fun c =>
      writeAll (formatEntries (symbolSize version) mask)
        (writeAll (dataWrites codewords mask (dataModules version) 0) modules) c ^^
          inverted mask c.2 c.1).take (8 * totalCodewords version)) = codewords := by
  obtain ⟨-, hfacts⟩ := formatPlaces_facts version (version_mem h1 h10)
  have hroom := (length_dataModules_bounds h1 h10).1
  have hmap : ((dataModules version).map fun c =>
      writeAll (formatEntries (symbolSize version) mask)
        (writeAll (dataWrites codewords mask (dataModules version) 0) modules) c ^^
          inverted mask c.2 c.1) =
      (dataModules version).map fun c =>
        writeAll (dataWrites codewords mask (dataModules version) 0) modules c ^^
          maskAt mask c.1 c.2 := by
    apply map_congr_left
    intro c hc
    obtain ⟨-, hf⟩ := (mem_dataModules h1).mp hc
    have hnot : c ∉ (formatEntries (symbolSize version) mask).map Prod.fst := by
      intro hmem
      rw [functionModule, (hfacts c hmem).1, Bool.or_true] at hf
      exact Bool.noConfusion hf
    rw [writeAll_other _ hnot, inverted_eq]
  have hread := bitsBytes_append codewords []
  rw [append_nil] at hread
  rw [hmap, ← hlen, read_dataWrites codewords mask nodup_dataModules (hlen ▸ hroom), hread]
  exact append_nil codewords

end

section

theorem bestMask_eq {version : Nat} {codewords : List Byte} :
    ∃ mask < 8, bestMask version codewords = withMask version codewords mask := by
  have hsteps : ∀ (l : List Nat), (∀ m ∈ l, m < 8) → ∀ best mask₀, mask₀ < 8 →
      best = withMask version codewords mask₀ → ∃ mask < 8, l.foldl (fun best mask =>
        let c := withMask version codewords mask
        if c.penalty < best.penalty then c else best) best = withMask version codewords mask := by
    intro l
    induction l with
    | nil => exact fun _ best mask₀ h₀ hb => ⟨mask₀, h₀, hb⟩
    | cons m rest ih =>
      intro hl best mask₀ h₀ hb
      have hrest : ∀ m ∈ rest, m < 8 := fun k hk => hl k (mem_cons_of_mem _ hk)
      rw [foldl_cons]
      dsimp only
      split
      · exact ih hrest _ m (hl m mem_cons_self) rfl
      · exact ih hrest best mask₀ h₀ hb
  refine hsteps _ ?_ _ 0 (by decide) rfl
  intro m hm
  have hrange := mem_range'_1.mp hm
  omega

def Smallest (length version : Nat) : Prop :=
  (1 ≤ version ∧ version ≤ maxVersion) ∧ fits length version = true ∧
    ∀ smaller, 1 ≤ smaller → smaller < version → fits length smaller = false

theorem fits_small {length version : Nat} (h1 : 1 ≤ version) (h10 : version ≤ 10)
    (h : fits length version = true) : length ≤ 213 := by
  have hall : ∀ v ∈ List.range' 1 10,
      8 * (levelM v).dataCodewords < 4 + countBits v + 8 * 214 := by decide
  have hcap := hall version (version_mem h1 h10)
  have hfits : 4 + countBits version + 8 * length ≤ 8 * (levelM version).dataCodewords :=
    of_decide_eq_true h
  omega

theorem fits_largest {length : Nat} (h : length ≤ 213) : fits length 10 = true := by
  apply decide_eq_true
  have hcap : 4 + countBits 10 + 8 * 213 ≤ 8 * (levelM 10).dataCodewords := by decide
  omega

variable {data : List Byte}

theorem encode_ok (h : data.length ≤ 213) :
    ∃ version, Smallest data.length version ∧ ∃ mask < 8, encode data =
      .ok (withMask version (interleave version (dataCodewords version data)) mask) := by
  cases hfind : (List.range' 1 maxVersion).find? (fits data.length) with
  | none =>
    rw [find?_eq_none] at hfind
    exact absurd (fits_largest h) (hfind 10 (by decide))
  | some version =>
    have hfind' := hfind
    rw [find?_range'_eq_some] at hfind
    obtain ⟨hfits, hmem, hsmall⟩ := hfind
    have hrange := mem_range'_1.mp hmem
    rw [maxVersion] at hrange
    obtain ⟨mask, hmask, hbest⟩ := bestMask_eq
    refine ⟨version, ⟨⟨by omega, by rw [maxVersion]; omega⟩, hfits, ?_⟩, mask, hmask, ?_⟩
    · intro smaller hs hlt
      simpa using hsmall smaller hs hlt
    · rw [encode, hfind', ← hbest]

theorem encode_tooLong (h : 213 < data.length) : encode data = .error errTooLong := by
  have hnone : (List.range' 1 maxVersion).find? (fits data.length) = none := by
    rw [find?_eq_none]
    intro version hmem hfits
    have hrange := mem_range'_1.mp hmem
    rw [maxVersion] at hrange
    have hle := fits_small (by omega) (by omega) hfits
    omega
  rw [encode, hnone]

structure Readable (data : List Byte) (c : Code) : Prop where
  smallest : Smallest data.length c.version
  size : c.size = symbolSize c.version
  mask : c.mask < 8
  format : ∀ copy, formatWord c.size c.modules copy = formatBits c.mask ∧
    readMask (formatWord c.size c.modules copy) = some c.mask
  text : ∀ copy, readSymbol c.version c.modules copy = some data

theorem withMask_readable {version mask : Nat}
    (hv : Smallest data.length version) (hm : mask < 8) :
    Readable data (withMask version (interleave version (dataCodewords version data)) mask) := by
  have hsmallest := hv
  obtain ⟨⟨h1, h10⟩, hfits, -⟩ := hv
  have hcount : data.length < 2 ^ countBits version := by
    have hle := fits_small h1 h10 hfits
    have hpow : 2 ^ 8 ≤ 2 ^ countBits version := by
      rw [countBits]
      split <;> omega
    omega
  obtain ⟨hlen, hwords, hparse⟩ := codewords_read (levelM_facts h1 h10) hfits hcount
  have hmodules := placed_modules h1 h10 (interleave version (dataCodewords version data)) mask
    { newCode version with mask := mask } rfl rfl rfl
  have hformat : ∀ copy, formatWord (symbolSize version)
      (withMask version (interleave version (dataCodewords version data)) mask).modules copy =
      formatBits mask := by
    intro copy
    exact formatWord_eq h1 h10 hm
  refine ⟨hsmallest, rfl, hm, fun copy => ?_, fun copy => ?_⟩
  · have hword := hformat copy
    refine ⟨hword, ?_⟩
    exact (congrArg readMask hword).trans (formatBits_facts mask hm).2
  change readSymbol version _ copy = some data
  rw [readSymbol, hformat copy, (formatBits_facts mask hm).2, withMask, hmodules,
    Option.bind_eq_bind, Option.bind_some]
  dsimp only
  rw [read_data h1 h10 hlen, if_pos hwords]
  exact hparse

end

structure SoundLayout (version : Nat) : Prop where
  reserved : ∀ c, (newCode version).reservedMap c = true ↔
    InSymbol (symbolSize version) c ∧ functionModule version c = true
  room : 8 * totalCodewords version ≤
    Set.ncard {c | InSymbol (symbolSize version) c ∧ functionModule version c = false}
  tight : Set.ncard {c | InSymbol (symbolSize version) c ∧ functionModule version c = false} <
    8 * totalCodewords version + 8
  untouched : ∀ (modules : Cell → Bool) (codewords : List Byte) (mask : Nat) (c : Cell),
    patternModule version c = true →
      (({ newCode version with modules := modules }.placeData codewords mask).placeFormat
        mask).modules c = modules c

theorem soundLayout (version : Nat) (h1 : 1 ≤ version) (h10 : version ≤ 10) :
    SoundLayout version := by
  have hset : {c | InSymbol (symbolSize version) c ∧ functionModule version c = false} =
      ((dataModules version).toFinset : Set Cell) := by
    ext c
    rw [Set.mem_ofPred_eq, ← mem_dataModules h1, coe_toFinset, Set.mem_ofPred_eq]
  have hcard : Set.ncard {c | InSymbol (symbolSize version) c ∧ functionModule version c = false} =
      (dataModules version).length := by
    rw [hset, Set.ncard_coe_finset, toFinset_card_of_nodup nodup_dataModules]
  have hbounds := length_dataModules_bounds h1 h10
  refine ⟨reserved_iff version h1 h10, hcard ▸ hbounds.1, hcard ▸ hbounds.2, ?_⟩
  intro modules codewords mask c hp
  have hplaced := placed_modules h1 h10 codewords mask
    { newCode version with modules := modules } rfl rfl rfl
  exact (congrFun hplaced c).trans (pattern_untouched h1 h10 hp)

/-- Every text of at most 213 bytes becomes a symbol that reads back as it, a longer one is refused,
and each version has room for its codewords. -/
theorem encode_reads_back (data : List Byte) :
    (data.length ≤ 213 → ∃ c, encode data = .ok c ∧ Readable data c) ∧
      (213 < data.length → encode data = .error errTooLong) ∧
      ∀ version, 1 ≤ version → version ≤ 10 → SoundLayout version := by
  refine ⟨fun h => ?_, encode_tooLong, soundLayout⟩
  obtain ⟨version, hv, mask, hmask, hok⟩ := encode_ok h
  exact ⟨_, hok, withMask_readable hv hmask⟩

def otpauthSample : List Byte :=
  "otpauth://totp/z?secret=A".toList.map fun c => BitVec.ofNat 8 c.toNat

theorem encode_reads_back_otpauth :
    ∃ c, encode otpauthSample = .ok c ∧ readSymbol c.version c.modules .split = some otpauthSample := by
  obtain ⟨c, hok, hread⟩ := (encode_reads_back otpauthSample).1 (by decide +kernel)
  exact ⟨c, hok, hread.text .split⟩

end Zoomies.Qr
