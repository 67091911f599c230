import Zoomies.BackupStream

/-! What holds from chunk to chunk holds of everything that reads of any sizes yield. -/
namespace Zoomies.Backup
open List

theorem frame_length (sealed : Bytes) : (frame sealed).length = sealed.length + 4 := by
  rw [frame, length_append, length_bigEndian, Nat.add_comm]

theorem eq_frame_append (rest : Bytes) (hlen : 4 ≤ rest.length)
    (hn : ofBigEndian (rest.take 4) ≤ (rest.drop 4).length) :
    rest = frame ((rest.drop 4).take (ofBigEndian (rest.take 4))) ++
      (rest.drop 4).drop (ofBigEndian (rest.take 4)) := by
  have hfour : (rest.take 4).length = 4 := by
    rw [length_take]
    omega
  have hbody : ((rest.drop 4).take (ofBigEndian (rest.take 4))).length =
      ofBigEndian (rest.take 4) := by
    rw [length_take]
    omega
  have hhead : bigEndian 4 (ofBigEndian (rest.take 4)) = rest.take 4 := by
    have hback := bigEndian_ofBigEndian (rest.take 4)
    rw [hfour] at hback
    exact hback
  rw [frame, hbody, hhead, append_assoc, take_append_drop, take_append_drop]

section
variable (opens : Bytes → Bytes → Bytes → Bytes → Option Bytes)

theorem next_eq_none {d d' : DecReader} (h : d.next opens = (d', none)) :
    ∃ sealed rest plain final, d.rest = frame sealed ++ rest ∧
      d.openChunk opens sealed final = some plain ∧ d' = d.opened rest plain final ∧
      (final = true → rest = []) := by
  unfold DecReader.next at h
  by_cases hnil : d.rest = []
  · rw [if_pos hnil] at h
    cases h
  rw [if_neg hnil] at h
  by_cases hfour : d.rest.length < 4
  · rw [if_pos hfour] at h
    cases h
  rw [if_neg hfour] at h
  dsimp only at h
  by_cases hlong : encChunk + encOverhead < ofBigEndian (d.rest.take 4)
  · rw [if_pos hlong] at h
    cases h
  rw [if_neg hlong] at h
  by_cases hcut : (d.rest.drop 4).length < ofBigEndian (d.rest.take 4)
  · rw [if_pos hcut] at h
    cases h
  rw [if_neg hcut] at h
  have hframe := eq_frame_append d.rest (by omega) (by omega)
  generalize (d.rest.drop 4).take (ofBigEndian (d.rest.take 4)) = sealed at h hframe
  generalize (d.rest.drop 4).drop (ofBigEndian (d.rest.take 4)) = rest at h hframe
  cases hordinary : d.openChunk opens sealed false with
  | some plain =>
    rw [hordinary] at h
    obtain ⟨rfl, _⟩ := Prod.mk.inj h
    exact ⟨sealed, rest, plain, false, hframe, hordinary, rfl, fun hf => by cases hf⟩
  | none =>
    rw [hordinary] at h
    cases hfinal : d.openChunk opens sealed true with
    | some plain =>
      rw [hfinal] at h
      obtain ⟨rfl, hend⟩ := Prod.mk.inj h
      refine ⟨sealed, rest, plain, true, hframe, hfinal, rfl, fun _ => ?_⟩
      by_contra hne
      rw [if_neg hne] at hend
      cases hend
    | none =>
      rw [hfinal] at h
      cases h

theorem next_frame (d : DecReader) {sealed : Bytes} (rest plain : Bytes) (final : Bool)
    (hrest : d.rest = frame sealed ++ rest) (hlen : sealed.length ≤ encChunk + encOverhead)
    (hopen : d.openChunk opens sealed final = some plain)
    (hordinary : final = true → d.openChunk opens sealed false = none ∧ rest = []) :
    d.next opens = (d.opened rest plain final, none) := by
  have hmax : encChunk + encOverhead < 256 ^ 4 := by decide
  have hread : ofBigEndian (bigEndian 4 sealed.length) = sealed.length := by
    rw [ofBigEndian_bigEndian]
    exact Nat.mod_eq_of_lt (by omega)
  have htake : d.rest.take 4 = bigEndian 4 sealed.length := by
    rw [hrest, frame, append_assoc]
    exact take_left' (length_bigEndian _)
  have hdrop : d.rest.drop 4 = sealed ++ rest := by
    rw [hrest, frame, append_assoc]
    exact drop_left' (length_bigEndian _)
  have hlength : d.rest.length = sealed.length + 4 + rest.length := by
    rw [hrest, length_append, frame_length]
  have hnil : d.rest ≠ [] := by
    intro he
    rw [he] at hlength
    simp only [length_nil] at hlength
    omega
  unfold DecReader.next
  rw [if_neg hnil, if_neg (by omega), htake, hread, hdrop]
  dsimp only
  rw [if_neg (by omega), length_append, if_neg (by omega), take_left, drop_left]
  cases final with
  | false => rw [hopen]
  | true =>
    obtain ⟨hnone, hend⟩ := hordinary rfl
    rw [hnone, hopen]
    rw [if_pos hend]

end

section
variable (opens : Bytes → Bytes → Bytes → Bytes → Option Bytes)
variable (Inv : Bytes → DecReader → Prop)

structure ReadInvariant : Prop where
  next : ∀ got d d', Inv got d → d.plain = [] → d.done = false → d.next opens = (d', none) →
    Inv got d'
  take : ∀ got d size, Inv got d →
    Inv (got ++ d.plain.take size) { d with plain := d.plain.drop size }

def StoppedAt (got : Bytes) : Stop → Prop
  | .eof => ∃ d, Inv got d ∧ d.plain = [] ∧ d.done = true
  | .error err => ∃ d d', Inv got d ∧ d.plain = [] ∧ d.done = false ∧ d.next opens = (d', some err)

variable {opens Inv}

theorem rest_length_lt {d d' : DecReader} (h : d.next opens = (d', none)) :
    d'.rest.length < d.rest.length := by
  obtain ⟨sealed, rest, plain, final, hrest, _, rfl, _⟩ := next_eq_none opens h
  rw [hrest, length_append, frame_length]
  change rest.length < _
  omega

variable (hinv : ReadInvariant opens Inv)
include hinv

theorem fill_spec (rounds : Nat) {got : Bytes} (d : DecReader) (hd : Inv got d)
    (hrounds : d.rest.length + 1 < rounds) :
    (∃ d', d.fill opens rounds = (d', none) ∧ Inv got d' ∧ d'.plain ≠ []) ∨
      ∃ d' stop, d.fill opens rounds = (d', some stop) ∧ StoppedAt opens Inv got stop := by
  induction rounds generalizing d with
  | zero => omega
  | succ rounds ih =>
    rw [DecReader.fill]
    by_cases hplain : d.plain ≠ []
    · rw [if_pos hplain]
      exact .inl ⟨d, rfl, hd, hplain⟩
    rw [if_neg hplain]
    have hempty : d.plain = [] := not_not.mp hplain
    cases hdone : d.done with
    | true =>
      exact .inr ⟨d, .eof, rfl, d, hd, hempty, hdone⟩
    | false =>
      rcases hnext : d.next opens with ⟨d', _ | err⟩
      · have hless := rest_length_lt hnext
        exact ih d' (hinv.next got d d' hd hempty hdone hnext) (by omega)
      · exact .inr ⟨d', .error err, rfl, d, d', hd, hempty, hdone, hnext⟩

/-- What is yielded keeps the invariant, and the reads stop only where a read can. -/
theorem readAll_spec {sizes : List Nat} (got : Bytes) (d : DecReader) (hd : Inv got d) :
    (∃ d', Inv (got ++ (readAll opens d sizes).1) d') ∧
      match (readAll opens d sizes).2 with
      | none => sizes.countP (0 < ·) ≤ (readAll opens d sizes).1.length
      | some stop => StoppedAt opens Inv (got ++ (readAll opens d sizes).1) stop := by
  induction sizes generalizing got d with
  | nil =>
    rw [readAll, append_nil]
    exact ⟨⟨d, hd⟩, Nat.le_refl 0⟩
  | cons size sizes ih =>
    rw [readAll, DecReader.read]
    rcases fill_spec hinv (d.rest.length + 2) d hd (by omega) with
      ⟨d', hfill, hd', hplain⟩ | ⟨d', stop, hfill, hstop⟩
    · rw [hfill]
      dsimp only
      obtain ⟨hrest, hend⟩ := ih (got ++ d'.plain.take size) _ (hinv.take got d' size hd')
      rw [append_assoc] at hrest hend
      refine ⟨hrest, ?_⟩
      generalize readAll opens { d' with plain := d'.plain.drop size } sizes = r at hend ⊢
      obtain ⟨more, stop⟩ := r
      cases stop with
      | some stop => exact hend
      | none =>
        have hpos : 0 < d'.plain.length := length_pos_iff.mpr hplain
        rw [countP_cons, length_append, length_take]
        by_cases hsize : 0 < size
        · rw [if_pos (by simpa using hsize)]
          omega
        · rw [if_neg (by simpa using hsize)]
          omega
    · rw [hfill]
      rw [append_nil]
      refine ⟨?_, hstop⟩
      cases stop with
      | eof =>
        obtain ⟨d₁, h₁, _⟩ := hstop
        exact ⟨d₁, h₁⟩
      | error err =>
        obtain ⟨d₁, _, h₁, _⟩ := hstop
        exact ⟨d₁, h₁⟩

end

def Produced (c : Cipher) (writers : Writing → Prop) (s : Sealing) : Prop :=
  ∃ w e, writers w ∧ w.run c = .ok e ∧ s ∈ e.seals

structure Ideal (c : Cipher) (writers : Writing → Prop)
    (opens : Bytes → Bytes → Bytes → Bytes → Option Bytes) : Prop where
  -- different salts of the length that is drawn give different keys, and `Open` gives back what a
  -- writer sealed and nothing else
  keys : ∀ p p' salt salt', salt.length = encSaltLen → salt'.length = encSaltLen →
    c.deriveKey p salt = c.deriveKey p' salt' → salt = salt'
  opens_iff : ∀ key nonce sealed aad plain, opens key nonce sealed aad = some plain ↔
    Produced c writers ⟨key, nonce, plain, aad⟩ ∧ sealed = c.sealed ⟨key, nonce, plain, aad⟩

structure Fresh (writers : Writing → Prop) : Prop where
  -- no two writers drew the same salt and nonce base, and none wrote so much that its counter came
  -- round
  draws : ∀ w w', writers w → writers w' → w.salt = w'.salt → w.base = w'.base → w = w'
  short : ∀ w, writers w → w.plaintext.length < 2 ^ 64 * encChunk

section
variable (c : Cipher) (w : Writing) (chunks : List Bytes) (last : Bytes) (e : EncWriter)

theorem flatten_length_of_full {chunks : List Bytes}
    (h : ∀ chunk ∈ chunks, chunk.length = encChunk) :
    chunks.flatten.length = chunks.length * encChunk := by
  induction chunks with
  | nil => exact (Nat.zero_mul _).symm
  | cons chunk chunks ih =>
    rw [flatten_cons, length_append, h chunk mem_cons_self,
      ih fun x hx => h x (mem_cons_of_mem _ hx), length_cons, Nat.succ_mul, Nat.add_comm]

theorem flatten_take_of_full {chunks : List Bytes} {last : Bytes} {k : Nat}
    (h : ∀ chunk ∈ chunks, chunk.length = encChunk) (hk : k ≤ chunks.length) :
    (chunks.take k).flatten = (chunks.flatten ++ last).take (k * encChunk) := by
  have hlen : (chunks.take k).flatten.length = k * encChunk := by
    rw [flatten_length_of_full fun x hx => h x (mem_of_mem_take hx), length_take,
      Nat.min_eq_left hk]
  have hsplit : chunks.flatten ++ last =
      (chunks.take k).flatten ++ ((chunks.drop k).flatten ++ last) := by
    rw [← append_assoc, ← flatten_append, take_append_drop]
  rw [hsplit, take_left' hlen]

variable {c w chunks last e}

theorem Writing.Left.count_lt (h : w.Left c chunks last e)
    (hshort : w.plaintext.length < 2 ^ 64 * encChunk) : chunks.length < 2 ^ 64 := by
  rw [h.plaintext_eq, length_append, flatten_length_of_full h.full] at hshort
  exact Nat.lt_of_mul_lt_mul_right (Nat.lt_of_le_of_lt (Nat.le_add_right _ _) hshort)

theorem chunkSeals_length (key base : Bytes) (chunks : List Bytes) :
    (chunkSeals key base chunks).length = chunks.length := by
  rw [chunkSeals, length_map, length_zipIdx]

theorem Writing.Left.seals_length (h : w.Left c chunks last e) :
    e.seals.length = chunks.length + if w.finished then 1 else 0 := by
  rw [h.seals, length_append, chunkSeals_length]
  cases w.finished <;> rfl

theorem Writing.Left.seal_at (h : w.Left c chunks last e) {j : Nat} {s : Sealing}
    (hs : e.seals[j]? = some s) : ∃ plain, (chunks ++ [last])[j]? = some plain ∧
      s = sealingAt (w.key c) w.base j plain (w.finished && j == chunks.length) := by
  rw [h.seals] at hs
  rcases Nat.lt_or_ge j chunks.length with hj | hj
  · rw [List.getElem?_append_left (by rw [chunkSeals_length]; exact hj), chunkSeals,
      List.getElem?_map, List.getElem?_zipIdx, List.getElem?_eq_getElem hj] at hs
    refine ⟨chunks[j], ?_, ?_⟩
    · rw [List.getElem?_append_left hj, List.getElem?_eq_getElem hj]
    have hne : (j == chunks.length) = false := beq_false_of_ne (Nat.ne_of_lt hj)
    rw [hne, Bool.and_false]
    simp only [Option.map_some, Nat.zero_add, Option.some.injEq] at hs
    exact hs.symm
  · rw [List.getElem?_append_right (by rw [chunkSeals_length]; exact hj), chunkSeals_length] at hs
    cases hfin : w.finished with
    | false =>
      rw [hfin] at hs
      cases hs
    | true =>
      rw [hfin, if_pos rfl] at hs
      have hlt : j - chunks.length < 1 := (List.getElem?_eq_some_iff.mp hs).1
      obtain rfl : j = chunks.length := by omega
      rw [Nat.sub_self] at hs
      refine ⟨last, ?_, ?_⟩
      · rw [List.getElem?_append_right (Nat.le_refl _), Nat.sub_self]
        rfl
      · rw [beq_self_eq_true, Bool.and_true]
        exact (Option.some.inj hs).symm

theorem Writing.Left.plains (h : w.Left c chunks last e) :
    e.seals.map Sealing.plain = chunks ++ if w.finished then [last] else [] := by
  have hwhole : (chunkSeals (w.key c) w.base chunks).map Sealing.plain = chunks := by
    rw [chunkSeals, map_map]
    exact zipIdx_map_fst 0 chunks
  rw [h.seals, map_append, hwhole]
  cases w.finished <;> rfl

theorem Writing.Left.take_plains (h : w.Left c chunks last e) {k : Nat} :
    ((e.seals.take k).map Sealing.plain).flatten <+: w.plaintext := by
  rw [map_take, h.plains, h.plaintext_eq]
  generalize hall : (chunks ++ if w.finished then [last] else []) = all
  have htake : (all.take k).flatten <+: all.flatten :=
    ⟨(all.drop k).flatten, by rw [← flatten_append, take_append_drop]⟩
  refine htake.trans ?_
  subst hall
  cases w.finished with
  | true =>
    exact ⟨[], by rw [if_pos rfl, flatten_append, flatten_singleton, append_nil]⟩
  | false =>
    rw [if_neg Bool.false_ne_true, append_nil]
    exact prefix_append _ _

end

section
variable (c : Cipher) (writers : Writing → Prop)
variable (opens : Bytes → Bytes → Bytes → Bytes → Option Bytes)

structure Track (w : Writing) (chunks : List Bytes) (e : EncWriter) (b : Bytes) (k : Nat)
    (got : Bytes) (d : DecReader) : Prop where
  same_key : d.key = w.key c
  same_base : d.base = w.base
  counter : d.counter = k % 2 ^ 64
  le : k ≤ e.seals.length
  bytes : b = w.header ++ frames c (e.seals.take k) ++ d.rest
  yielded : got ++ d.plain = ((e.seals.take k).map Sealing.plain).flatten
  done : d.done = (w.finished && k == chunks.length + 1)
  ended : d.done = true → d.rest = []

variable {c writers opens}

variable {base : Bytes}

theorem nonce_eq {base' : Bytes} {j k : Nat} {f f' : Bool} (hb : base.length = encNonceBase)
    (hb' : base'.length = encNonceBase) (hj : j < 2 ^ 64) (hk : k < 2 ^ 64)
    (h : (chunkNonce base j f).1 = (chunkNonce base' k f').1) : base = base' ∧ j = k := by
  obtain ⟨hbase, hplace⟩ := append_inj h (hb.trans hb'.symm)
  exact ⟨hbase, bigEndian_inj hj hk hplace⟩

theorem aad_final_eq {base' : Bytes} {j k : Nat} {f f' : Bool}
    (h : (chunkNonce base j f).2 = (chunkNonce base' k f').2) : f = f' := by
  have hlast := (append_inj h (by rw [length_bigEndian, length_bigEndian])).2
  cases f <;> cases f' <;> first | rfl | cases hlast

/-- A chunk that opens was sealed by the writer of its salt and base, at that place. -/
theorem opened_at (hideal : Ideal c writers opens) (hfresh : Fresh writers) {passphrase : String}
    {salt : Bytes} {k : Nat} {sealed plain : Bytes} {final : Bool}
    (hsalt : salt.length = encSaltLen) (hbase : base.length = encNonceBase) (hk : k < 2 ^ 64)
    (h : opens (c.deriveKey passphrase salt) (chunkNonce base k final).1 sealed
      (chunkNonce base k final).2 = some plain) :
    ∃ w e, writers w ∧ w.run c = .ok e ∧ w.salt = salt ∧ w.base = base ∧
      w.key c = c.deriveKey passphrase salt ∧ ∀ chunks last, w.Left c chunks last e →
        ∃ s, e.seals[k]? = some s ∧ s.plain = plain ∧ sealed = c.sealed s ∧
          final = (w.finished && k == chunks.length) := by
  obtain ⟨⟨w, e, hw, hrun, hmem⟩, hsealed⟩ := (hideal.opens_iff _ _ _ _ _).mp h
  obtain ⟨j, hj⟩ := List.mem_iff_getElem?.mp hmem
  obtain ⟨chunks, last, e', hleft⟩ := w.exists_left
  obtain rfl : e = e' := Except.ok.inj (hrun.symm.trans hleft.run_eq)
  have hplace (chunks : List Bytes) (last : Bytes) (hleft : w.Left c chunks last e) :
      w.key c = c.deriveKey passphrase salt ∧ w.base = base ∧ j = k ∧
        final = (w.finished && j == chunks.length) := by
    obtain ⟨p, hp, hs⟩ := hleft.seal_at hj
    have hj' : j < 2 ^ 64 := by
      have hlt := (List.getElem?_eq_some_iff.mp hp).1
      have hcount := hleft.count_lt (hfresh.short w hw)
      rw [List.length_append, List.length_singleton] at hlt
      omega
    obtain ⟨hkey, hnonce, _, haad⟩ := Sealing.mk.inj hs
    obtain ⟨hb, hjk⟩ := nonce_eq hbase w.base_length hk hj' hnonce
    exact ⟨hkey.symm, hb.symm, hjk.symm, aad_final_eq haad⟩
  obtain ⟨hkey, hb, rfl, _⟩ := hplace chunks last hleft
  refine ⟨w, e, hw, hrun, hideal.keys _ _ _ _ w.salt_length hsalt hkey, hb, hkey, fun chunks last hleft => ?_⟩
  exact ⟨_, hj, rfl, hsealed, (hplace chunks last hleft).2.2.2⟩

section
variable {w : Writing} {chunks : List Bytes} {last : Bytes} {e : EncWriter} {b : Bytes} {k : Nat}
variable {got : Bytes} {d d' : DecReader}

theorem Track.le_chunks (ht : Track c w chunks e b k got d) (hleft : w.Left c chunks last e)
    (hdone : d.done = false) : k ≤ chunks.length := by
  have hle := ht.le
  have hflag := ht.done
  rw [hleft.seals_length] at hle
  rw [hdone] at hflag
  cases hfin : w.finished with
  | false =>
    rw [hfin, if_neg Bool.false_ne_true] at hle
    exact hle
  | true =>
    rw [hfin, if_pos rfl] at hle
    rw [hfin, Bool.true_and] at hflag
    have hne : k ≠ chunks.length + 1 := beq_eq_false_iff_ne.mp hflag.symm
    omega

theorem Track.openChunk (ht : Track c w chunks e b k got d) (sealed : Bytes) (final : Bool) :
    d.openChunk opens sealed final = opens (c.deriveKey w.passphrase w.salt)
      (chunkNonce w.base k final).1 sealed (chunkNonce w.base k final).2 := by
  rw [DecReader.openChunk, ht.same_key, ht.same_base, ht.counter, chunkNonce_mod]
  rfl

theorem take_succ_seals {s : Sealing} (hs : e.seals[k]? = some s) :
    e.seals.take (k + 1) = e.seals.take k ++ [s] := by
  rw [take_add_one, hs]
  rfl

theorem Track.next (hideal : Ideal c writers opens) (hfresh : Fresh writers) (hw : writers w)
    (ht : Track c w chunks e b k got d) (hleft : w.Left c chunks last e) (hplain : d.plain = [])
    (hdone : d.done = false) (hnext : d.next opens = (d', none)) :
    Track c w chunks e b (k + 1) got d' := by
  obtain ⟨sealed, rest, plain, final, hrest, hopen, rfl, hend⟩ := next_eq_none opens hnext
  have hk : k < 2 ^ 64 :=
    Nat.lt_of_le_of_lt (ht.le_chunks hleft hdone) (hleft.count_lt (hfresh.short w hw))
  rw [ht.openChunk] at hopen
  obtain ⟨w', e', hw', hrun, hsalt, hbase, _, hseal⟩ :=
    opened_at hideal hfresh w.salt_length w.base_length hk hopen
  obtain rfl : w' = w := hfresh.draws w' w hw' hw hsalt hbase
  obtain rfl : e' = e := Except.ok.inj (hrun.symm.trans hleft.run_eq)
  obtain ⟨s, hs, rfl, rfl, rfl⟩ := hseal chunks last hleft
  have htake := take_succ_seals (k := k) hs
  refine ⟨ht.same_key, ht.same_base, ?_, (List.getElem?_eq_some_iff.mp hs).1, ?_, ?_, ?_, hend⟩
  · change (d.counter + 1) % 2 ^ 64 = (k + 1) % 2 ^ 64
    rw [ht.counter, Nat.mod_add_mod]
  · change b = w'.header ++ frames c (e'.seals.take (k + 1)) ++ rest
    have hbytes := ht.bytes
    rw [hrest] at hbytes
    rw [htake, frames_concat, List.append_assoc, List.append_assoc, ← List.append_assoc, hbytes,
      List.append_assoc]
  · change got ++ s.plain = _
    have hyield := ht.yielded
    rw [hplain, List.append_nil] at hyield
    rw [htake, List.map_append, List.flatten_append, ← hyield, List.map_singleton,
      List.flatten_singleton]
  change (w'.finished && k == chunks.length) = (w'.finished && k + 1 == chunks.length + 1)
  congr 1
  rw [Bool.eq_iff_iff, beq_iff_eq, beq_iff_eq, Nat.add_right_cancel_iff]

theorem Track.take (ht : Track c w chunks e b k got d) (size : Nat) :
    Track c w chunks e b k (got ++ d.plain.take size) { d with plain := d.plain.drop size } := by
  refine ⟨ht.same_key, ht.same_base, ht.counter, ht.le, ht.bytes, ?_, ht.done, ht.ended⟩
  rw [← ht.yielded, append_assoc, take_append_drop]

end

end

end Zoomies.Backup
