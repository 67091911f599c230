import Mathlib.Data.List.Nodup
import Zoomies.BackupTrack

/-! An encrypted backup, from the writer to the reader and over any file in between: it opens only as
the bytes that were written. -/
namespace Zoomies.Backup
open List

section
variable {c : Cipher} {writers : Writing → Prop}
variable {opens : Bytes → Bytes → Bytes → Bytes → Option Bytes}

theorem newDecryptor_ok {b : Bytes} {passphrase : String} {d : DecReader}
    (h : newDecryptor c b passphrase = .ok d) :
    ∃ salt base, salt.length = encSaltLen ∧ base.length = encNonceBase ∧
      b = encMagic ++ salt ++ base ++ d.rest ∧
      d = { key := c.deriveKey passphrase salt, base := base, rest := d.rest } := by
  unfold newDecryptor at h
  by_cases hlen : b.length < encMagic.length + encSaltLen + encNonceBase
  · rw [if_pos hlen] at h
    cases h
  rw [if_neg hlen] at h
  by_cases hmagic : b.take encMagic.length ≠ encMagic
  · rw [if_pos hmagic] at h
    cases h
  rw [if_neg hmagic] at h
  obtain rfl := Except.ok.inj h
  refine ⟨(b.drop encMagic.length).take encSaltLen,
    (b.drop (encMagic.length + encSaltLen)).take encNonceBase, ?_, ?_, ?_, rfl⟩
  · rw [length_take, length_drop]
    omega
  · rw [length_take, length_drop]
    omega
  have hhead : b = encMagic ++ b.drop encMagic.length := by
    conv_lhs => rw [← take_append_drop encMagic.length b, not_not.mp hmagic]
  have hsalt : b.drop encMagic.length = (b.drop encMagic.length).take encSaltLen ++
      b.drop (encMagic.length + encSaltLen) := by
    rw [← drop_drop, take_append_drop]
  have hbase : b.drop (encMagic.length + encSaltLen) =
      (b.drop (encMagic.length + encSaltLen)).take encNonceBase ++
        b.drop (encMagic.length + encSaltLen + encNonceBase) := by
    rw [← drop_drop (i := encNonceBase), take_append_drop]
  rw [append_assoc, ← hbase, append_assoc, ← hsalt]
  exact hhead

theorem newDecryptor_header {w : Writing} {rest : Bytes} :
    newDecryptor c (w.header ++ rest) w.passphrase =
      .ok { key := w.key c, base := w.base, rest := rest } := by
  have hlen : w.header.length = encMagic.length + encSaltLen + encNonceBase := by
    rw [Writing.header, length_append, length_append, w.salt_length, w.base_length]
  have hwhole : w.header ++ rest = encMagic ++ (w.salt ++ (w.base ++ rest)) := by
    rw [Writing.header, append_assoc, append_assoc]
  have hsalt : (w.header ++ rest).drop encMagic.length = w.salt ++ (w.base ++ rest) := by
    rw [hwhole, drop_left]
  have hbase : (w.header ++ rest).drop (encMagic.length + encSaltLen) = w.base ++ rest := by
    rw [← drop_drop, hsalt, drop_left' w.salt_length]
  unfold newDecryptor
  rw [if_neg (by rw [length_append, hlen]; omega), hsalt, hbase, ← hlen, drop_left,
    take_left' w.salt_length, take_left' w.base_length]
  rfl

theorem track_invariant (hideal : Ideal c writers opens) (hfresh : Fresh writers) {w : Writing}
    (hw : writers w) {chunks : List Bytes} {last : Bytes} {e : EncWriter}
    (hleft : w.Left c chunks last e) {b : Bytes} :
    ReadInvariant opens fun got d => ∃ k, Track c w chunks e b k got d where
  next := fun _ _ _ ⟨k, ht⟩ hplain hdone hnext =>
    ⟨k + 1, ht.next hideal hfresh hw hleft hplain hdone hnext⟩
  take := fun _ _ size ⟨k, ht⟩ => ⟨k, ht.take size⟩

theorem track_start (w : Writing) (chunks : List Bytes) (e : EncWriter) (rest : Bytes) :
    Track c w chunks e (w.header ++ rest) 0 [] { key := w.key c, base := w.base, rest := rest } := by
  refine ⟨rfl, rfl, rfl, Nat.zero_le _, ?_, rfl, ?_, fun h => by cases h⟩
  · rw [take_zero, frames, map_nil, flatten_nil, append_nil]
  · exact (Bool.and_false w.finished).symm

/-- The next chunk of a stream that was finished opens. -/
theorem Track.opens_next (hideal : Ideal c writers opens) (hfresh : Fresh writers) {w : Writing}
    (hw : writers w) {chunks : List Bytes} {last : Bytes} {e : EncWriter} {k : Nat} {got : Bytes}
    {d : DecReader} (hleft : w.Left c chunks last e) (hfin : w.finished = true)
    (ht : Track c w chunks e e.out k got d) (hdone : d.done = false) :
    ∃ d', d.next opens = (d', none) := by
  have hle := ht.le_chunks hleft hdone
  have hlength : e.seals.length = chunks.length + 1 := by
    rw [hleft.seals_length, hfin, if_pos rfl]
  have hlt : k < e.seals.length := by omega
  obtain ⟨s, hs⟩ : ∃ s, e.seals[k]? = some s := ⟨_, getElem?_eq_getElem hlt⟩
  obtain ⟨plain, hplain, rfl⟩ := hleft.seal_at hs
  generalize hflag : (w.finished && k == chunks.length) = final at hs
  have hopen : d.openChunk opens (c.sealed (sealingAt (w.key c) w.base k plain final)) final =
      some plain := by
    rw [ht.openChunk]
    exact (hideal.opens_iff _ _ _ _ _).mpr ⟨⟨w, e, hw, hleft.run_eq, mem_of_getElem? hs⟩, rfl⟩
  have hrest : d.rest = frame (c.sealed (sealingAt (w.key c) w.base k plain final)) ++
      frames c (e.seals.drop (k + 1)) := by
    have hall : frames c e.seals = frames c (e.seals.take k) ++
        (frame (c.sealed (sealingAt (w.key c) w.base k plain final)) ++
          frames c (e.seals.drop (k + 1))) := by
      conv_lhs => rw [← take_append_drop (k + 1) e.seals]
      rw [take_succ_seals hs, frames_append, frames_concat, append_assoc]
    have hbytes := ht.bytes
    rw [hleft.out, hall, append_assoc] at hbytes
    exact (append_cancel_left (append_cancel_left hbytes)).symm
  refine ⟨_, next_frame opens d _ plain final hrest ?_ hopen fun hf => ⟨?_, ?_⟩⟩
  · have hmem : plain ∈ chunks ++ [last] := mem_of_getElem? hplain
    have hshort := hleft.short
    have hsize : plain.length ≤ encChunk := by
      rcases mem_append.mp hmem with hold | hnew
      · exact Nat.le_of_eq (hleft.full plain hold)
      · rw [mem_singleton.mp hnew]
        omega
    rw [Cipher.sealed, c.length_sealBytes]
    exact Nat.add_le_add_right hsize _
  -- the final chunk does not open as an ordinary one
  · cases hordinary : d.openChunk opens (c.sealed (sealingAt (w.key c) w.base k plain final)) false with
    | none => rfl
    | some p =>
      rw [ht.openChunk] at hordinary
      obtain ⟨w', e', hw', hrun, hsalt, hbase, _, hseal⟩ :=
        opened_at hideal hfresh w.salt_length w.base_length
        (Nat.lt_of_le_of_lt hle (hleft.count_lt (hfresh.short w hw))) hordinary
      obtain rfl : w' = w := hfresh.draws w' w hw' hw hsalt hbase
      obtain rfl : e' = e := Except.ok.inj (hrun.symm.trans hleft.run_eq)
      obtain ⟨_, _, _, _, hfalse⟩ := hseal chunks last hleft
      exact absurd (hfalse.trans (hflag.trans hf)) Bool.false_ne_true
  · have hk : k = chunks.length := by
      rw [← hflag, hfin, Bool.true_and] at hf
      exact beq_iff_eq.mp hf
    rw [drop_eq_nil_of_le (by omega)]
    rfl

section
variable {w : Writing} {chunks : List Bytes} {last : Bytes} {e : EncWriter} {b : Bytes} {k : Nat}
variable {got : Bytes} {d : DecReader}

theorem Track.got_isPrefix (ht : Track c w chunks e b k got d) (hleft : w.Left c chunks last e) :
    got <+: w.plaintext :=
  List.IsPrefix.trans ⟨d.plain, ht.yielded⟩ hleft.take_plains

theorem Track.at_end (ht : Track c w chunks e b k got d) (hleft : w.Left c chunks last e)
    (hplain : d.plain = []) (hdone : d.done = true) :
    w.finished = true ∧ b = e.out ∧ got = w.plaintext := by
  have hflag := ht.done
  rw [hdone] at hflag
  obtain ⟨hfin, hk⟩ := Bool.and_eq_true_iff.mp hflag.symm
  have hall : e.seals.take k = e.seals := by
    apply take_of_length_le
    rw [hleft.seals_length, hfin, if_pos rfl, beq_iff_eq.mp hk]
  have hbytes := ht.bytes
  have hyield := ht.yielded
  rw [hall, ht.ended hdone, append_nil] at hbytes
  rw [hall, hplain, append_nil, hleft.plains, hfin, if_pos rfl, flatten_append,
    flatten_singleton] at hyield
  exact ⟨hfin, hbytes.trans hleft.out.symm, hyield.trans hleft.plaintext_eq.symm⟩

theorem Track.at_error (ht : Track c w chunks e b k got d) (hleft : w.Left c chunks last e)
    (hplain : d.plain = []) (hdone : d.done = false) : got = w.plaintext.take (k * encChunk) := by
  have hle := ht.le_chunks hleft hdone
  have hyield := ht.yielded
  rw [hplain, append_nil, map_take, hleft.plains, take_append_of_le_length hle,
    flatten_take_of_full hleft.full hle, ← hleft.plaintext_eq] at hyield
  exact hyield

theorem Track.got_length_le (ht : Track c w chunks e b k got d) : got.length ≤ b.length := by
  have hseals (seals : List Sealing) :
      (seals.map Sealing.plain).flatten.length ≤ (frames c seals).length := by
    induction seals with
    | nil => exact Nat.le_refl _
    | cons s seals ih =>
      rw [frames, map_cons, map_cons, flatten_cons, flatten_cons,
        length_append, length_append, frame_length, Cipher.sealed, c.length_sealBytes]
      rw [frames] at ih
      omega
  have hyield := congrArg List.length ht.yielded
  have hle := hseals (e.seals.take k)
  rw [length_append] at hyield
  rw [ht.bytes, length_append, length_append]
  omega

end

/-- What was written is read back, whatever the sizes of the reads. -/
theorem reads_back (hideal : Ideal c writers opens) (hfresh : Fresh writers) {w : Writing}
    (hw : writers w) (hfin : w.finished = true) :
    ∃ e d, w.run c = .ok e ∧ newDecryptor c e.out w.passphrase = .ok d ∧
      ∀ sizes : List Nat, (readAll opens d sizes).1 <+: w.plaintext ∧
        (∀ stop, (readAll opens d sizes).2 = some stop →
          stop = .eof ∧ (readAll opens d sizes).1 = w.plaintext) ∧
        (w.plaintext.length < sizes.countP (0 < ·) → (readAll opens d sizes).2 = some .eof) := by
  obtain ⟨chunks, last, e, hleft⟩ := w.exists_left
  have hstart := track_start w chunks e (frames c e.seals) (c := c)
  rw [← hleft.out] at hstart
  refine ⟨e, _, hleft.run_eq, hleft.out ▸ newDecryptor_header, fun sizes => ?_⟩
  obtain ⟨⟨d', k, ht⟩, hend⟩ := readAll_spec
    (track_invariant hideal hfresh hw hleft) [] _ ⟨0, hstart⟩
  generalize readAll opens _ sizes = r at ht hend ⊢
  obtain ⟨got, stop⟩ := r
  dsimp only at ht hend ⊢
  have hpart : got <+: w.plaintext := ht.got_isPrefix hleft
  have hstop (stop' : Stop) (h : stop = some stop') : stop' = .eof ∧ got = w.plaintext := by
    subst h
    cases stop' with
    | eof =>
      obtain ⟨d₁, ⟨k, ht⟩, hplain, hdone⟩ := hend
      exact ⟨rfl, (ht.at_end hleft hplain hdone).2.2⟩
    | error err =>
      obtain ⟨d₁, d₂, ⟨k, ht⟩, _, hdone, hnext⟩ := hend
      obtain ⟨d₃, hok⟩ := ht.opens_next hideal hfresh hw hleft hfin hdone
      rw [hok] at hnext
      cases hnext
  refine ⟨hpart, hstop, fun hmany => ?_⟩
  cases stop with
  | some stop => rw [(hstop stop rfl).1]
  | none =>
    have hle := hpart.length_le
    omega

theorem Writing.Left.nonces {w : Writing} {chunks : List Bytes} {last : Bytes} {e : EncWriter}
    (hleft : w.Left c chunks last e) : e.seals.map Sealing.nonce =
      (List.range e.seals.length).map fun place => (chunkNonce w.base place false).1 := by
  apply ext_getElem?
  intro j
  rw [getElem?_map, getElem?_map]
  rcases Nat.lt_or_ge j e.seals.length with hj | hj
  · rw [getElem?_range hj]
    obtain ⟨s, hs⟩ : ∃ s, e.seals[j]? = some s := ⟨_, getElem?_eq_getElem hj⟩
    obtain ⟨plain, _, rfl⟩ := hleft.seal_at hs
    rw [hs]
    rfl
  · rw [getElem?_eq_none hj, getElem?_eq_none (by rw [length_range]; exact hj)]
    rfl

theorem nonces_nodup (hfresh : Fresh writers) {w : Writing} (hw : writers w) {e : EncWriter}
    (hrun : w.run c = .ok e) : (e.seals.map Sealing.nonce).Nodup := by
  obtain ⟨chunks, last, e', hleft⟩ := w.exists_left
  obtain rfl : e = e' := Except.ok.inj (hrun.symm.trans hleft.run_eq)
  have hcount := hleft.count_lt (hfresh.short w hw)
  have hlength : e.seals.length ≤ 2 ^ 64 := by
    rw [hleft.seals_length]
    split <;> omega
  rw [hleft.nonces]
  refine List.Nodup.map_on (fun i hi j hj h => ?_) nodup_range
  rw [mem_range] at hi hj
  exact (nonce_eq w.base_length w.base_length (by omega) (by omega) h).2

def Followed (c : Cipher) (writers : Writing → Prop) (b : Bytes) (start : DecReader)
    (got : Bytes) (d : DecReader) : Prop :=
  got = [] ∧ d = start ∨ ∃ w chunks last e k, writers w ∧ w.Left c chunks last e ∧
    Track c w chunks e b k got d

theorem followed_invariant (hideal : Ideal c writers opens) (hfresh : Fresh writers) {b : Bytes}
    {passphrase : String} {start : DecReader}
    (hstart : newDecryptor c b passphrase = .ok start) :
    ReadInvariant opens (Followed c writers b start) := by
  obtain ⟨salt, base, hsalt, hbase, hb, hd⟩ := newDecryptor_ok hstart
  refine ⟨?_, ?_⟩
  · rintro got d d' (⟨rfl, rfl⟩ | ⟨w, chunks, last, e, k, hw, hleft, ht⟩) hplain hdone hnext
    -- the first chunk that opens says which writer it is
    · obtain ⟨sealed, rest, plain, final, _, hopen, _⟩ := next_eq_none opens hnext
      have hkey : d.key = c.deriveKey passphrase salt := congrArg DecReader.key hd
      have hb' : d.base = base := congrArg DecReader.base hd
      have hcounter : d.counter = 0 := congrArg DecReader.counter hd
      rw [DecReader.openChunk, hkey, hb', hcounter] at hopen
      obtain ⟨w, e, hw, hrun, rfl, rfl, hwkey, _⟩ :=
        opened_at hideal hfresh hsalt hbase (by decide) hopen
      obtain ⟨chunks, last, e', hleft⟩ := w.exists_left
      have ht := track_start w chunks e' d.rest (c := c)
      rw [hwkey, ← hd] at ht
      have hbytes : b = w.header ++ d.rest := hb
      rw [← hbytes] at ht
      exact .inr ⟨w, chunks, last, e', 1, hw, hleft,
        ht.next hideal hfresh hw hleft hplain hdone hnext⟩
    · exact .inr ⟨w, chunks, last, e, k + 1, hw, hleft,
        ht.next hideal hfresh hw hleft hplain hdone hnext⟩
  · rintro got d size (⟨rfl, rfl⟩ | ⟨w, chunks, last, e, k, hw, hleft, ht⟩)
    · left
      have hplain : d.plain = [] := congrArg DecReader.plain hd
      refine ⟨by rw [hplain, take_nil, append_nil], ?_⟩
      rw [hplain, drop_nil, ← hplain]
    · exact .inr ⟨w, chunks, last, e, k, hw, hleft, ht.take size⟩

end

/-- Under an ideal cipher, with fresh draws and no counter come round: a finished stream is read
back whole; no nonce is used twice in a stream; and from any file reads yield the start of some
written plaintext, and come to the end only of a stream some writer finished. -/
theorem opens_only_as_written (c : Cipher) (writers : Writing → Prop)
    (opens : Bytes → Bytes → Bytes → Bytes → Option Bytes) (hideal : Ideal c writers opens)
    (hfresh : Fresh writers) : (∀ w, writers w → w.finished = true → ∃ e d, w.run c = .ok e ∧
      newDecryptor c e.out w.passphrase = .ok d ∧
      ∀ sizes : List Nat, (readAll opens d sizes).1 <+: w.plaintext ∧
        (∀ stop, (readAll opens d sizes).2 = some stop →
          stop = .eof ∧ (readAll opens d sizes).1 = w.plaintext) ∧
        (w.plaintext.length < sizes.countP (0 < ·) → (readAll opens d sizes).2 = some .eof)) ∧
    (∀ w e, writers w → w.run c = .ok e → (e.seals.map Sealing.nonce).Nodup) ∧
    ∀ b passphrase d, newDecryptor c b passphrase = .ok d → ∀ sizes : List Nat,
      ((readAll opens d sizes).1 = [] ∨
        ∃ w, writers w ∧ (readAll opens d sizes).1 <+: w.plaintext) ∧
      (∀ err, (readAll opens d sizes).2 = some (.error err) → (readAll opens d sizes).1 = [] ∨
        ∃ w k, writers w ∧ (readAll opens d sizes).1 = w.plaintext.take (k * encChunk)) ∧
      ((readAll opens d sizes).2 = some .eof → ∃ w e, writers w ∧ w.finished = true ∧
        w.run c = .ok e ∧ b = e.out ∧ (readAll opens d sizes).1 = w.plaintext) ∧
      (b.length < sizes.countP (0 < ·) → (readAll opens d sizes).2 ≠ none) := by
  refine ⟨fun w hw hfin => reads_back hideal hfresh hw hfin,
    fun w e hw hrun => nonces_nodup hfresh hw hrun, fun b passphrase start hstart sizes => ?_⟩
  obtain ⟨⟨d', hd'⟩, hend⟩ := readAll_spec
    (followed_invariant hideal hfresh hstart) [] start (.inl ⟨rfl, rfl⟩)
  generalize readAll opens start sizes = r at hd' hend ⊢
  obtain ⟨got, stop⟩ := r
  dsimp only at hd' hend ⊢
  refine ⟨?_, ?_, ?_, ?_⟩
  · rcases hd' with ⟨hnone, _⟩ | ⟨w, chunks, last, e, k, hw, hleft, ht⟩
    · exact .inl hnone
    · exact .inr ⟨w, hw, ht.got_isPrefix hleft⟩
  · rintro err rfl
    obtain ⟨d₁, _, h₁, hplain, hdone, _⟩ := hend
    rcases h₁ with ⟨hnone, _⟩ | ⟨w, chunks, last, e, k, hw, hleft, ht⟩
    · exact .inl hnone
    · exact .inr ⟨w, k, hw, ht.at_error hleft hplain hdone⟩
  · rintro rfl
    obtain ⟨d₁, h₁, hplain, hdone⟩ := hend
    rcases h₁ with ⟨_, rfl⟩ | ⟨w, chunks, last, e, k, hw, hleft, ht⟩
    -- a reader that has opened nothing is not done
    · obtain ⟨_, _, _, _, _, hd⟩ := newDecryptor_ok hstart
      have hnot : d₁.done = false := congrArg DecReader.done hd
      rw [hdone] at hnot
      cases hnot
    · obtain ⟨hfin, hb, hgot⟩ := ht.at_end hleft hplain hdone
      exact ⟨w, e, hw, hfin, hleft.run_eq, hb, hgot⟩
  · rintro hmany rfl
    have hle : got.length ≤ b.length := by
      rcases hd' with ⟨rfl, _⟩ | ⟨w, chunks, last, e, k, hw, hleft, ht⟩
      · exact Nat.zero_le _
      · exact ht.got_length_le
    omega

theorem exists_ideal {c : Cipher} {writers : Writing → Prop}
    (hinj : ∀ key nonce aad p p', c.sealBytes key nonce p aad = c.sealBytes key nonce p' aad → p = p')
    (hkeys : ∀ p p' salt salt', salt.length = encSaltLen → salt'.length = encSaltLen →
      c.deriveKey p salt = c.deriveKey p' salt' → salt = salt') :
    ∃ opens, Ideal c writers opens := by
  classical
  refine ⟨fun key nonce sealed aad =>
    if h : ∃ plain, Produced c writers ⟨key, nonce, plain, aad⟩ ∧
        sealed = c.sealed ⟨key, nonce, plain, aad⟩ then some h.choose else none, hkeys, ?_⟩
  intro key nonce sealed aad plain
  constructor
  · intro h
    split_ifs at h with hex
    obtain rfl := Option.some.inj h
    exact hex.choose_spec
  intro h
  have hex : ∃ plain, Produced c writers ⟨key, nonce, plain, aad⟩ ∧
    sealed = c.sealed ⟨key, nonce, plain, aad⟩ := ⟨plain, h⟩
  rw [dif_pos hex]
  exact congrArg some (hinj _ _ _ _ _ (hex.choose_spec.2.symm.trans h.2))

def plainCipher : Cipher where
  deriveKey _ salt := (salt ++ List.replicate encKeyLen 0).take encKeyLen
  sealBytes _ _ plain _ := plain ++ List.replicate encOverhead 0
  length_deriveKey _ salt := by
    rw [List.length_take, List.length_append, List.length_replicate]
    omega
  length_sealBytes _ _ _ _ := by rw [List.length_append, List.length_replicate]

theorem exists_ideal_plainCipher (writers : Writing → Prop) :
    ∃ opens, Ideal plainCipher writers opens := by
  refine exists_ideal (fun _ _ _ _ _ h => append_cancel_right h) fun p p' salt salt' hs hs' h => ?_
  -- the salt is the first half of the key
  have hhead (s : Bytes) (hs : s.length = encSaltLen) :
      (plainCipher.deriveKey p s).take encSaltLen = s := by
    change ((s ++ List.replicate encKeyLen 0).take encKeyLen).take encSaltLen = s
    rw [List.take_take, Nat.min_eq_left (by decide), List.take_left' hs]
  rw [← hhead salt hs, ← hhead salt' hs']
  exact congrArg (List.take encSaltLen) h

def writing (writes : List Bytes) : Writing where
  passphrase := "correct horse"
  salt := List.replicate encSaltLen 7
  base := List.replicate encNonceBase 7
  writes := writes
  finished := true
  salt_length := List.length_replicate
  base_length := List.length_replicate
  passphrase_given := by decide +kernel

theorem opens_only_as_written_small : ∃ opens e d,
    Ideal plainCipher (· = writing [[1, 2], [3]]) opens ∧ Fresh (· = writing [[1, 2], [3]]) ∧
      (writing [[1, 2], [3]]).run plainCipher = .ok e ∧
      newDecryptor plainCipher e.out "correct horse" = .ok d ∧
      (readAll opens d [2, 0, 1, 7, 7]).2 = some .eof ∧
      (readAll opens d [2, 0, 1, 7, 7]).1 = [1, 2, 3] := by
  obtain ⟨opens, hideal⟩ := exists_ideal_plainCipher (· = writing [[1, 2], [3]])
  have hfresh : Fresh (· = writing [[1, 2], [3]]) :=
    ⟨fun w w' hw hw' _ _ => hw.trans hw'.symm, fun w hw => by rw [hw]; decide +kernel⟩
  obtain ⟨e, d, hrun, hd, hread⟩ :=
    (opens_only_as_written plainCipher _ opens hideal hfresh).1 _ rfl rfl
  obtain ⟨_, hstop, hmany⟩ := hread [2, 0, 1, 7, 7]
  have hend := hmany (by decide +kernel)
  exact ⟨opens, e, d, hideal, hfresh, hrun, hd, hend, (hstop _ hend).2⟩

section
variable {c : Cipher} {w w' : Writing} {chunks chunks' : List Bytes} {last last' : Bytes}
variable {e e' : EncWriter} {opens : Bytes → Bytes → Bytes → Bytes → Option Bytes}

theorem Writing.Left.nonce_reused (hleft : w.Left c chunks last e) (hfin : w.finished = true)
    (hcount : chunks.length = 2 ^ 64) : ¬ (e.seals.map Sealing.nonce).Nodup := by
  intro hnodup
  have hlen : e.seals.length = 2 ^ 64 + 1 := by rw [hleft.seals_length, hfin, hcount, if_pos rfl]
  rw [hleft.nonces, hlen] at hnodup
  have hwrap : (chunkNonce w.base 0 false).1 = (chunkNonce w.base (2 ^ 64) false).1 := by
    rw [← chunkNonce_mod (2 ^ 64), Nat.mod_self]
  have hsame := inj_on_of_nodup_map hnodup (x := 0) (mem_range.mpr (by omega))
    (y := 2 ^ 64) (mem_range.mpr (by omega)) hwrap
  omega

variable {first : Bytes}

theorem Writing.Left.one_chunk (hleft : w.Left c chunks last e) {rest : Bytes}
    (hfirst : first.length = encChunk) (hrest : rest.length < encChunk)
    (hp : w.plaintext = first ++ rest) : chunks = [first] ∧ last = rest := by
  have hdata := hleft.plaintext_eq.symm.trans hp
  have hshort := hleft.short
  have hlen := congrArg List.length hdata
  rw [length_append, length_append, flatten_length_of_full hleft.full, hfirst] at hlen
  have hcount : chunks.length = 1 := by
    have hlt : chunks.length < 2 := by
      by_contra hge
      have hmul : 2 * encChunk ≤ chunks.length * encChunk := Nat.mul_le_mul_right _ (by omega)
      omega
    have hne : chunks.length ≠ 0 := by
      intro hz
      rw [hz, Nat.zero_mul] at hlen
      omega
    omega
  obtain ⟨x, rfl⟩ := length_eq_one_iff.mp hcount
  rw [flatten_singleton] at hdata
  have hx : x.length = first.length := (hleft.full x mem_cons_self).trans hfirst.symm
  obtain ⟨rfl, rfl⟩ := append_inj hdata hx
  exact ⟨rfl, rfl⟩

theorem Writing.Left.two_seals (hleft : w.Left c chunks last e) (hfin : w.finished = true)
    (hchunks : chunks = [first]) :
    e.seals = [sealingAt (w.key c) w.base 0 first false, sealingAt (w.key c) w.base 1 last true] := by
  rw [hleft.seals, hfin, hchunks]
  rfl

theorem read_opens {d d' : DecReader} (size : Nat) (hplain : d.plain = []) (hdone : d.done = false)
    (hnext : d.next opens = (d', none)) (hsome : d'.plain ≠ []) :
    d.read opens size = ({ d' with plain := d'.plain.drop size }, .ok (d'.plain.take size)) := by
  have hfill (rounds : Nat) : d.fill opens (rounds + 2) = (d', none) := by
    rw [DecReader.fill, if_neg (not_not.mpr hplain), if_neg (by rw [hdone]; exact Bool.false_ne_true),
      hnext]
    dsimp only
    rw [DecReader.fill, if_pos hsome]
  rw [DecReader.read, hfill]

theorem read_eof {d : DecReader} {size : Nat} (hplain : d.plain = []) (hdone : d.done = true) :
    d.read opens size = (d, .error .eof) := by
  rw [DecReader.read, DecReader.fill, if_neg (not_not.mpr hplain), if_pos hdone]

theorem not_sealed_second (hleft : w.Left c chunks last e) (hfin : w.finished = true)
    (hchunks : chunks = [first]) {base : Bytes} {plain : Bytes} {key : Bytes}
    (hbase : base.length = encNonceBase) : sealingAt key base 1 plain false ∉ e.seals := by
  intro hmem
  rw [hleft.two_seals hfin hchunks, mem_cons, mem_singleton] at hmem
  rcases hmem with h | h
  · obtain ⟨_, hnonce, _, _⟩ := Sealing.mk.inj h
    have hplace := (nonce_eq hbase w.base_length (by decide) (by decide) hnonce).2
    omega
  · obtain ⟨_, _, _, haad⟩ := Sealing.mk.inj h
    cases aad_final_eq haad

def spliced (c : Cipher) (w : Writing) (first last : Bytes) : Bytes :=
  w.header ++ (frame (c.sealed (sealingAt (w.key c) w.base 0 first false)) ++
    frame (c.sealed (sealingAt (w.key c) w.base 1 last true)))

theorem spliced_reads (hideal : Ideal c (fun x => x = w ∨ x = w') opens)
    (hleft : w.Left c chunks last e) (hleft' : w'.Left c chunks' last' e')
    (hfin : w.finished = true) (hfin' : w'.finished = true) (hkey : w'.key c = w.key c)
    (hbase : w'.base = w.base) {first' : Bytes} (hchunks : chunks = [first])
    (hchunks' : chunks' = [first']) (hlast : last' ≠ []) :
    ∃ d, newDecryptor c (spliced c w first last') w.passphrase = .ok d ∧
      readAll opens d [encChunk, encChunk, 1] = (first ++ last', some .eof) := by
  refine ⟨_, newDecryptor_header, ?_⟩
  have hfull : first.length = encChunk := hleft.full first (by rw [hchunks]; exact mem_cons_self)
  have hfirst : first ≠ [] := by
    rintro rfl
    exact absurd hfull.symm encChunk_pos.ne'
  -- both chunks open at their places, the second only as a final one
  have hopen₀ : opens (w.key c) (chunkNonce w.base 0 false).1
      (c.sealed (sealingAt (w.key c) w.base 0 first false)) (chunkNonce w.base 0 false).2 =
        some first := by
    refine (hideal.opens_iff _ _ _ _ _).mpr ⟨⟨w, e, .inl rfl, hleft.run_eq, ?_⟩, rfl⟩
    rw [hleft.two_seals hfin hchunks]
    exact mem_cons_self
  have hopen₁ : opens (w.key c) (chunkNonce w.base 1 true).1
      (c.sealed (sealingAt (w.key c) w.base 1 last' true)) (chunkNonce w.base 1 true).2 =
        some last' := by
    refine (hideal.opens_iff _ _ _ _ _).mpr ⟨⟨w', e', .inr rfl, hleft'.run_eq, ?_⟩, rfl⟩
    rw [hleft'.two_seals hfin' hchunks', hkey, hbase]
    exact mem_cons_of_mem _ mem_cons_self
  have hordinary (sealed : Bytes) : opens (w.key c) (chunkNonce w.base 1 false).1 sealed
      (chunkNonce w.base 1 false).2 = none := by
    rw [Option.eq_none_iff_forall_ne_some]
    intro plain h
    obtain ⟨⟨x, ex, hx, hrun, hmem⟩, _⟩ := (hideal.opens_iff _ _ _ _ _).mp h
    rcases hx with rfl | rfl
    · obtain rfl : ex = e := Except.ok.inj (hrun.symm.trans hleft.run_eq)
      exact not_sealed_second hleft hfin hchunks x.base_length hmem
    · obtain rfl : ex = e' := Except.ok.inj (hrun.symm.trans hleft'.run_eq)
      exact not_sealed_second hleft' hfin' hchunks' w.base_length hmem
  have hlen (plain : Bytes) (place : Nat) (final : Bool) (h : plain.length ≤ encChunk) :
      (c.sealed (sealingAt (w.key c) w.base place plain final)).length ≤ encChunk + encOverhead := by
    rw [Cipher.sealed, c.length_sealBytes]
    exact Nat.add_le_add_right h _
  have hread₀ (rest : Bytes) := read_opens encChunk rfl rfl
    (next_frame opens { key := w.key c, base := w.base, rest := _ } rest first false rfl
      (hlen first 0 false hfull.le) hopen₀ (fun h => by cases h)) hfirst
  have hread₁ := read_opens encChunk rfl rfl
    (next_frame opens { key := w.key c, base := w.base, counter := (0 + 1) % 2 ^ 64
                        rest := frame (c.sealed (sealingAt (w.key c) w.base 1 last' true)) } [] last' true (append_nil _).symm (hlen last' 1 true hleft'.short.le) hopen₁
      (fun _ => ⟨hordinary _, rfl⟩)) hlast
  rw [readAll, hread₀]
  dsimp only [DecReader.opened]
  rw [drop_of_length_le hfull.le, take_of_length_le hfull.le, readAll, hread₁]
  dsimp only [DecReader.opened]
  rw [drop_of_length_le hleft'.short.le, take_of_length_le hleft'.short.le, readAll,
    read_eof rfl rfl]
  rw [append_nil]

end

def chunkOf (byte : UInt8) : Bytes := List.replicate encChunk byte

theorem chunkOf_length {byte : UInt8} : (chunkOf byte).length = encChunk := length_replicate

theorem chunkOf_append_ne {byte byte' : UInt8} (h : byte ≠ byte') {rest rest' : Bytes} :
    chunkOf byte ++ rest ≠ chunkOf byte' ++ rest' := by
  intro he
  have hchunks := (append_inj he (chunkOf_length.trans chunkOf_length.symm)).1
  have hmem : byte ∈ chunkOf byte' := by
    rw [← hchunks]
    exact mem_replicate.mpr ⟨encChunk_pos.ne', rfl⟩
  exact h (eq_of_mem_replicate hmem)

theorem writing_left (first : UInt8) (rest : Bytes) (hrest : rest.length < encChunk) :
    ∃ e, (writing [chunkOf first ++ rest]).Left plainCipher [chunkOf first] rest e := by
  obtain ⟨chunks, last, e, hleft⟩ := (writing [chunkOf first ++ rest]).exists_left
  obtain ⟨rfl, rfl⟩ := hleft.one_chunk chunkOf_length hrest (append_nil _)
  exact ⟨e, hleft⟩

/-- Streams under one salt and nonce base can be spliced, and a stream of `2 ^ 84` bytes uses its
first nonce twice. -/
theorem spliced_and_wrapped :
    (∃ opens d, Ideal plainCipher (fun x => x = writing [chunkOf 0 ++ [1]] ∨
          x = writing [chunkOf 3 ++ [2]]) opens ∧
      newDecryptor plainCipher (spliced plainCipher (writing [chunkOf 0 ++ [1]]) (chunkOf 0) [2])
        "correct horse" = .ok d ∧
      readAll opens d [encChunk, encChunk, 1] = (chunkOf 0 ++ [2], some .eof) ∧
      (writing [chunkOf 0 ++ [1]]).plaintext ≠ chunkOf 0 ++ [2] ∧
      (writing [chunkOf 3 ++ [2]]).plaintext ≠ chunkOf 0 ++ [2]) ∧
    ∃ e, (writing [List.replicate (2 ^ 84) 0]).run plainCipher = .ok e ∧
      ¬ (e.seals.map Sealing.nonce).Nodup := by
  constructor
  · obtain ⟨opens, hideal⟩ := exists_ideal_plainCipher
      (fun x => x = writing [chunkOf 0 ++ [1]] ∨ x = writing [chunkOf 3 ++ [2]])
    obtain ⟨e, hleft⟩ := writing_left 0 [1] (by decide)
    obtain ⟨e', hleft'⟩ := writing_left 3 [2] (by decide)
    obtain ⟨d, hd, hread⟩ := spliced_reads hideal hleft hleft' rfl rfl rfl rfl rfl rfl (cons_ne_nil _ _)
    refine ⟨opens, d, hideal, hd, hread, ?_, ?_⟩
    · intro h
      have hplain : chunkOf 0 ++ [1] = chunkOf 0 ++ [2] := (append_nil _).symm.trans h
      exact absurd (append_cancel_left hplain) (by decide)
    · intro h
      exact chunkOf_append_ne (by decide) ((append_nil _).symm.trans h)
  · obtain ⟨chunks, last, e, hleft⟩ :=
      (writing [List.replicate (2 ^ 84) 0]).exists_left
    refine ⟨e, hleft.run_eq, hleft.nonce_reused rfl ?_⟩
    have hlen := congrArg List.length hleft.plaintext_eq
    rw [Writing.plaintext, writing, flatten_singleton, length_replicate,
      length_append, flatten_length_of_full hleft.full] at hlen
    have hshort := hleft.short
    have hchunk : encChunk = 2 ^ 20 := rfl
    rw [hchunk] at hlen hshort
    omega

end Zoomies.Backup
