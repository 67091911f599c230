import Zoomies.BitStream
import Zoomies.GoFormat

/-! The encrypted form of a backup: a header, then chunks sealed one by one and framed by their
lengths. Key derivation and sealing are given functions. -/
namespace Zoomies.Backup
open Zoomies.Go List

abbrev Bytes := List UInt8

def encMagic : Bytes := "zoomies-backup-enc-v1\n".toList.map fun c => UInt8.ofNat c.toNat

def encSaltLen : Nat := 16

def encNonceBase : Nat := 4

def encChunk : Nat := 2 ^ 20

def encKeyLen : Nat := 32

def encOverhead : Nat := 16

structure Cipher where
  deriveKey : String → Bytes → Bytes
  sealBytes : Bytes → Bytes → Bytes → Bytes → Bytes
  length_deriveKey : ∀ passphrase salt, (deriveKey passphrase salt).length = encKeyLen
  length_sealBytes : ∀ key nonce plain aad,
    (sealBytes key nonce plain aad).length = plain.length + encOverhead

structure Sealing where
  key : Bytes
  nonce : Bytes
  plain : Bytes
  aad : Bytes
  deriving DecidableEq

def Cipher.sealed (c : Cipher) (s : Sealing) : Bytes := c.sealBytes s.key s.nonce s.plain s.aad

def chunkNonce (base : Bytes) (counter : Nat) (final : Bool) : Bytes × Bytes :=
  (base ++ bigEndian 8 counter, bigEndian 8 counter ++ [if final then 1 else 0])

structure EncWriter where
  key : Bytes
  base : Bytes
  out : Bytes
  buf : Bytes := []
  counter : Nat := 0
  closed : Bool := false
  seals : List Sealing := []

def newEncryptor (c : Cipher) (passphrase : String) (salt base : Bytes) : Except String EncWriter :=
  if trimSpace passphrase = "" then .error "backup: a passphrase is needed to encrypt"
  else .ok { key := c.deriveKey passphrase salt, base := base, out := encMagic ++ salt ++ base }

def frame (sealed : Bytes) : Bytes := bigEndian 4 sealed.length ++ sealed

namespace EncWriter
variable (c : Cipher)

def sealing (e : EncWriter) (final : Bool) : Sealing :=
  ⟨e.key, (chunkNonce e.base e.counter final).1, e.buf, (chunkNonce e.base e.counter final).2⟩

def flush (e : EncWriter) (final : Bool) : EncWriter :=
  { e with
    out := e.out ++ frame (c.sealed (e.sealing final))
    counter := (e.counter + 1) % 2 ^ 64
    buf := []
    seals := e.seals ++ [e.sealing final] }

def writeLoop : Nat → EncWriter → Bytes → EncWriter
  | 0, e, _ => e
  | rounds + 1, e, p =>
    if p = [] then e
    else
      let n := min (encChunk - e.buf.length) p.length
      let e' := { e with buf := e.buf ++ p.take n }
      writeLoop rounds (if e'.buf.length = encChunk then e'.flush c false else e') (p.drop n)

def write (e : EncWriter) (p : Bytes) : Except String EncWriter :=
  if e.closed then .error "backup: write after close"
  else .ok (e.writeLoop c p.length p)

def close (e : EncWriter) : EncWriter :=
  if e.closed then e else flush c { e with closed := true } true

end EncWriter

structure Writing where
  passphrase : String
  salt : Bytes
  base : Bytes
  writes : List Bytes
  finished : Bool
  salt_length : salt.length = encSaltLen
  base_length : base.length = encNonceBase
  passphrase_given : trimSpace passphrase ≠ ""

def Writing.run (c : Cipher) (w : Writing) : Except String EncWriter :=
  match newEncryptor c w.passphrase w.salt w.base with
  | .error e => .error e
  | .ok e =>
    match w.writes.foldlM (fun e p => EncWriter.write c e p) e with
    | .error e => .error e
    | .ok e => .ok (if w.finished then e.close c else e)

def Writing.plaintext (w : Writing) : Bytes := w.writes.flatten

inductive DecError
  | notEncrypted
  | cutShort
  | unexpectedEOF
  | insideChunk
  | wrongPassphrase
  | bytesFollow
  deriving DecidableEq

inductive Stop
  | eof
  | error (err : DecError)
  deriving DecidableEq

structure DecReader where
  key : Bytes
  base : Bytes
  rest : Bytes
  counter : Nat := 0
  plain : Bytes := []
  done : Bool := false

def newDecryptor (c : Cipher) (b : Bytes) (passphrase : String) : Except DecError DecReader :=
  if b.length < encMagic.length + encSaltLen + encNonceBase then .error .notEncrypted
  else if b.take encMagic.length ≠ encMagic then .error .notEncrypted
  else
    let salt := (b.drop encMagic.length).take encSaltLen
    let base := (b.drop (encMagic.length + encSaltLen)).take encNonceBase
    .ok { key := c.deriveKey passphrase salt, base := base
          rest := b.drop (encMagic.length + encSaltLen + encNonceBase) }

namespace DecReader
variable (opens : Bytes → Bytes → Bytes → Bytes → Option Bytes)

def openChunk (d : DecReader) (sealed : Bytes) (final : Bool) : Option Bytes :=
  opens d.key (chunkNonce d.base d.counter final).1 sealed (chunkNonce d.base d.counter final).2

def opened (d : DecReader) (rest plain : Bytes) (final : Bool) : DecReader :=
  { d with rest := rest, counter := (d.counter + 1) % 2 ^ 64, plain := plain, done := final }

def next (d : DecReader) : DecReader × Option DecError :=
  if d.rest = [] then (d, some .cutShort)
  else if d.rest.length < 4 then ({ d with rest := [] }, some .unexpectedEOF)
  else
    let n := ofBigEndian (d.rest.take 4)
    let rest := d.rest.drop 4
    if encChunk + encOverhead < n then ({ d with rest := rest }, some .wrongPassphrase)
    else if rest.length < n then ({ d with rest := [] }, some .insideChunk)
    else
      let sealed := rest.take n
      let rest := rest.drop n
      match d.openChunk opens sealed false with
      | some plain => (d.opened rest plain false, none)
      | none =>
        match d.openChunk opens sealed true with
        | some plain =>
          (d.opened rest plain true, if rest = [] then none else some .bytesFollow)
        | none => ({ d with rest := rest }, some .wrongPassphrase)

def fill : Nat → DecReader → DecReader × Option Stop
  | 0, d => (d, none)
  | rounds + 1, d =>
    if d.plain ≠ [] then (d, none)
    else if d.done then (d, some .eof)
    else
      match d.next opens with
      | (d, some err) => (d, some (.error err))
      | (d, none) => fill rounds d

def read (d : DecReader) (size : Nat) : DecReader × Except Stop Bytes :=
  match d.fill opens (d.rest.length + 2) with
  | (d, some stop) => (d, .error stop)
  | (d, none) => ({ d with plain := d.plain.drop size }, .ok (d.plain.take size))

end DecReader

def readAll (opens : Bytes → Bytes → Bytes → Bytes → Option Bytes) :
    DecReader → List Nat → Bytes × Option Stop
  | _, [] => ([], none)
  | d, size :: sizes =>
    match d.read opens size with
    | (d, .ok got) => (got ++ (readAll opens d sizes).1, (readAll opens d sizes).2)
    | (_, .error stop) => ([], some stop)

theorem bigEndian_mod {width n : Nat} : bigEndian width (n % 256 ^ width) = bigEndian width n := by
  have hback := bigEndian_ofBigEndian (bigEndian width n)
  rw [ofBigEndian_bigEndian, length_bigEndian] at hback
  exact hback

def sealingAt (key base : Bytes) (place : Nat) (plain : Bytes) (final : Bool) : Sealing :=
  ⟨key, (chunkNonce base place final).1, plain, (chunkNonce base place final).2⟩

def chunkSeals (key base : Bytes) (chunks : List Bytes) : List Sealing :=
  chunks.zipIdx.map fun x => sealingAt key base x.2 x.1 false

def frames (c : Cipher) (seals : List Sealing) : Bytes :=
  (seals.map fun s => frame (c.sealed s)).flatten

theorem chunkNonce_mod {base : Bytes} (place : Nat) (final : Bool) :
    chunkNonce base (place % 2 ^ 64) final = chunkNonce base place final := by
  have hmod : bigEndian 8 (place % 2 ^ 64) = bigEndian 8 place := bigEndian_mod
  rw [chunkNonce, chunkNonce, hmod]

theorem chunkSeals_concat (key base : Bytes) (chunks : List Bytes) (plain : Bytes) :
    chunkSeals key base (chunks ++ [plain]) =
      chunkSeals key base chunks ++ [sealingAt key base chunks.length plain false] := by
  rw [chunkSeals, chunkSeals, zipIdx_append, map_append, Nat.zero_add]
  rfl

theorem frames_append (c : Cipher) (seals seals' : List Sealing) :
    frames c (seals ++ seals') = frames c seals ++ frames c seals' := by
  rw [frames, frames, frames, map_append, flatten_append]

theorem frames_concat (c : Cipher) (seals : List Sealing) (s : Sealing) :
    frames c (seals ++ [s]) = frames c seals ++ frame (c.sealed s) := by
  rw [frames_append, frames, frames, map_singleton, flatten_singleton]

structure Sealed (c : Cipher) (header key base : Bytes) (chunks : List Bytes) (e : EncWriter) :
    Prop where
  same_key : e.key = key
  same_base : e.base = base
  seals : e.seals = chunkSeals key base chunks
  out : e.out = header ++ frames c e.seals
  counter : e.counter = chunks.length % 2 ^ 64
  full : ∀ chunk ∈ chunks, chunk.length = encChunk

section
variable (c : Cipher) (header key base : Bytes)

theorem Sealed.sealing {chunks : List Bytes} {e : EncWriter}
    (h : Sealed c header key base chunks e) (final : Bool) :
    e.sealing final = sealingAt key base chunks.length e.buf final := by
  rw [EncWriter.sealing, sealingAt, h.same_key, h.same_base, h.counter, chunkNonce_mod]

theorem Sealed.flush {chunks : List Bytes} {e : EncWriter}
    (h : Sealed c header key base chunks e) (hfull : e.buf.length = encChunk) :
    Sealed c header key base (chunks ++ [e.buf]) (e.flush c false) := by
  have hsealing := h.sealing c header key base false
  refine ⟨h.same_key, h.same_base, ?_, ?_, ?_, ?_⟩
  · rw [chunkSeals_concat, ← h.seals, ← hsealing]
    rfl
  · change e.out ++ frame (c.sealed (e.sealing false)) = header ++ frames c (e.seals ++ [e.sealing false])
    rw [frames_concat, h.out, append_assoc]
  · change (e.counter + 1) % 2 ^ 64 = (chunks ++ [e.buf]).length % 2 ^ 64
    rw [h.counter, length_append, length_singleton, Nat.mod_add_mod]
  intro chunk hchunk
  rcases mem_append.mp hchunk with hold | hnew
  · exact h.full chunk hold
  · rw [mem_singleton.mp hnew]
    exact hfull

theorem encChunk_pos : 0 < encChunk := by decide

theorem Sealed.writeLoop {rounds : Nat} (chunks : List Bytes) (e : EncWriter) (p : Bytes)
    (h : Sealed c header key base chunks e) (hbuf : e.buf.length < encChunk)
    (hp : p.length ≤ rounds) :
    ∃ chunks', Sealed c header key base chunks' (e.writeLoop c rounds p) ∧
      chunks'.flatten ++ (e.writeLoop c rounds p).buf = chunks.flatten ++ e.buf ++ p ∧
      (e.writeLoop c rounds p).buf.length < encChunk ∧
      (e.writeLoop c rounds p).closed = e.closed := by
  induction rounds generalizing chunks e p with
  | zero =>
    obtain rfl : p = [] := eq_nil_of_length_eq_zero (Nat.le_zero.mp hp)
    exact ⟨chunks, h, (append_nil _).symm, hbuf, rfl⟩
  | succ rounds ih =>
    rw [EncWriter.writeLoop]
    by_cases hnil : p = []
    · rw [if_pos hnil, hnil]
      exact ⟨chunks, h, (append_nil _).symm, hbuf, rfl⟩
    rw [if_neg hnil]
    dsimp only
    generalize hn : min (encChunk - e.buf.length) p.length = n
    have htake : (p.take n).length = n := by
      rw [length_take]
      omega
    have hdrop : (p.drop n).length ≤ rounds := by
      rw [length_drop]
      omega
    have hlen : (e.buf ++ p.take n).length = e.buf.length + n := by
      rw [length_append, htake]
    have hnext : Sealed c header key base chunks { e with buf := e.buf ++ p.take n } :=
      ⟨h.same_key, h.same_base, h.seals, h.out, h.counter, h.full⟩
    by_cases hfull : (e.buf ++ p.take n).length = encChunk
    · rw [if_pos hfull]
      obtain ⟨chunks', hs, hdata, hshort, hclosed⟩ := ih (chunks ++ [e.buf ++ p.take n]) _
        (p.drop n) (hnext.flush c header key base hfull) encChunk_pos hdrop
      refine ⟨chunks', hs, ?_, hshort, hclosed⟩
      calc
        _ = (chunks ++ [e.buf ++ p.take n]).flatten ++ [] ++ p.drop n := hdata
        _ = chunks.flatten ++ e.buf ++ (p.take n ++ p.drop n) := by
          simp
        _ = chunks.flatten ++ e.buf ++ p := by rw [take_append_drop]
    · rw [if_neg hfull]
      obtain ⟨chunks', hs, hdata, hshort, hclosed⟩ := ih chunks _ (p.drop n) hnext
        (by dsimp only; omega) hdrop
      refine ⟨chunks', hs, ?_, hshort, hclosed⟩
      calc
        _ = chunks.flatten ++ (e.buf ++ p.take n) ++ p.drop n := hdata
        _ = chunks.flatten ++ e.buf ++ (p.take n ++ p.drop n) := by
          simp
        _ = chunks.flatten ++ e.buf ++ p := by rw [take_append_drop]

theorem Sealed.writes (writes : List Bytes) (chunks : List Bytes) (e : EncWriter)
    (h : Sealed c header key base chunks e) (hbuf : e.buf.length < encChunk)
    (hopen : e.closed = false) :
    ∃ chunks' e', writes.foldlM (fun e p => EncWriter.write c e p) e = .ok e' ∧
      Sealed c header key base chunks' e' ∧
      chunks'.flatten ++ e'.buf = chunks.flatten ++ e.buf ++ writes.flatten ∧
      e'.buf.length < encChunk ∧ e'.closed = false := by
  induction writes generalizing chunks e with
  | nil => exact ⟨chunks, e, rfl, h, (append_nil _).symm, hbuf, hopen⟩
  | cons p writes ih =>
    obtain ⟨chunks₁, h₁, hdata₁, hbuf₁, hopen₁⟩ :=
      h.writeLoop c header key base chunks e p hbuf (Nat.le_refl _)
    obtain ⟨chunks', e', hrun, h', hdata, hbuf', hopen'⟩ :=
      ih chunks₁ _ h₁ hbuf₁ (hopen₁.trans hopen)
    refine ⟨chunks', e', ?_, h', ?_, hbuf', hopen'⟩
    · rw [foldlM_cons, EncWriter.write, hopen, if_neg Bool.false_ne_true]
      exact hrun
    · rw [hdata, hdata₁, flatten_cons, append_assoc]

end

def Writing.header (w : Writing) : Bytes := encMagic ++ w.salt ++ w.base

def Writing.key (c : Cipher) (w : Writing) : Bytes := c.deriveKey w.passphrase w.salt

structure Writing.Left (c : Cipher) (w : Writing) (chunks : List Bytes) (last : Bytes)
    (e : EncWriter) : Prop where
  run_eq : w.run c = .ok e
  plaintext_eq : w.plaintext = chunks.flatten ++ last
  full : ∀ chunk ∈ chunks, chunk.length = encChunk
  short : last.length < encChunk
  seals : e.seals = chunkSeals (w.key c) w.base chunks ++
    if w.finished then [sealingAt (w.key c) w.base chunks.length last true] else []
  out : e.out = w.header ++ frames c e.seals

theorem Writing.exists_left {c : Cipher} (w : Writing) :
    ∃ chunks last e, w.Left c chunks last e := by
  have hstart : Sealed c w.header (w.key c) w.base []
      { key := w.key c, base := w.base, out := w.header } :=
    ⟨rfl, rfl, rfl, (append_nil _).symm, rfl, fun _ h => by cases h⟩
  obtain ⟨chunks, e, hrun, hs, hdata, hbuf, hopen⟩ :=
    hstart.writes c w.header (w.key c) w.base w.writes [] _ encChunk_pos rfl
  have hnew : newEncryptor c w.passphrase w.salt w.base =
      .ok { key := w.key c, base := w.base, out := w.header } :=
    if_neg w.passphrase_given
  have hdata' : w.plaintext = chunks.flatten ++ e.buf := hdata.symm
  have hwhole : w.run c = .ok (if w.finished then e.close c else e) := by
    rw [Writing.run, hnew]
    dsimp only
    rw [hrun]
  cases hfin : w.finished with
  | false =>
    rw [hfin] at hwhole
    refine ⟨chunks, e.buf, e, hwhole, hdata', hs.full, hbuf, ?_, hs.out⟩
    rw [hfin, hs.seals]
    exact (append_nil _).symm
  | true =>
    rw [hfin] at hwhole
    have hclose : e.close c = EncWriter.flush c { e with closed := true } true := by
      rw [EncWriter.close, hopen]
      rfl
    have hclosed : Sealed c w.header (w.key c) w.base chunks { e with closed := true } :=
      ⟨hs.same_key, hs.same_base, hs.seals, hs.out, hs.counter, hs.full⟩
    have hsealing := hclosed.sealing c w.header (w.key c) w.base true
    refine ⟨chunks, e.buf, e.close c, hwhole, hdata', hs.full, hbuf, ?_, ?_⟩
    · rw [hfin, hclose, if_pos rfl, ← hs.seals, ← hsealing]
      rfl
    rw [hclose]
    change e.out ++ frame _ = w.header ++ frames c (e.seals ++ [_])
    rw [frames_concat, hs.out, append_assoc]

end Zoomies.Backup
