import DpLang.Proofs.Munch

/-!
# Bytes and texts

A byte string is either the UTF-8 encoding of a text, and then has the tokens of this text, or it is
rejected behind its longest front part that is one. `Spells` is the table of well-formed byte
sequences that the decoder and the encoder share.
-/

namespace DpLang

namespace Text

section Characters

/-- A byte that may follow the first one of a character. -/
def IsTail (b : UInt8) : Prop := 0x80 ≤ b.toNat ∧ b.toNat ≤ 0xBF

/-- The byte sequences that store a character, with its number. The second byte is bounded further
behind `E0` and `F0`, where a shorter sequence would do, behind `ED`, where surrogates would be, and
behind `F4`, where the numbers end. -/
inductive Spells : Nat → List UInt8 → Prop where
  | one {a : UInt8} (ha : a.toNat ≤ 0x7F) : Spells a.toNat [a]
  | two {a b : UInt8} (ha : 0xC2 ≤ a.toNat ∧ a.toNat ≤ 0xDF) (hb : IsTail b) :
      Spells ((a.toNat - 0xC0) * 64 + b.toNat % 64) [a, b]
  | three {a b c : UInt8} (ha : 0xE0 ≤ a.toNat ∧ a.toNat ≤ 0xEF) (hb : IsTail b) (hc : IsTail c)
      (hlong : a.toNat = 0xE0 → 0xA0 ≤ b.toNat) (hsurrogate : a.toNat = 0xED → b.toNat ≤ 0x9F) :
      Spells (((a.toNat - 0xE0) * 64 + b.toNat % 64) * 64 + c.toNat % 64) [a, b, c]
  | four {a b c d : UInt8} (ha : 0xF0 ≤ a.toNat ∧ a.toNat ≤ 0xF4) (hb : IsTail b) (hc : IsTail c)
      (hd : IsTail d) (hlong : a.toNat = 0xF0 → 0x90 ≤ b.toNat)
      (hlast : a.toNat = 0xF4 → b.toNat ≤ 0x8F) :
      Spells ((((a.toNat - 0xF0) * 64 + b.toNat % 64) * 64 + c.toNat % 64) * 64 + d.toNat % 64)
        [a, b, c, d]

lemma between_iff {a low high : UInt8} :
    (low ≤ a && a ≤ high) = true ↔ low.toNat ≤ a.toNat ∧ a.toNat ≤ high.toNat := by
  rw [Bool.and_eq_true, decide_eq_true_iff, decide_eq_true_iff, UInt8.le_iff_toNat_le,
    UInt8.le_iff_toNat_le]

lemma isContinuation_iff {b : UInt8} : isContinuation b = true ↔ IsTail b := between_iff

lemma ne_or_iff {a k : UInt8} {p : Prop} [Decidable p] :
    (a != k || p) = true ↔ (a.toNat = k.toNat → p) := by
  rw [Bool.or_eq_true, bne_iff_ne, ne_eq, ← UInt8.toNat_inj, decide_eq_true_iff]
  tauto

variable {v : Nat} {bytes : List UInt8}

lemma decodeChar?_of_spells (h : Spells v bytes) (rest : List UInt8) :
    decodeChar? (bytes ++ rest) = some (Char.ofNat v, bytes.length) := by
  cases h with
  | one ha => simp [decodeChar?, UInt8.le_iff_toNat_le, ha]
  | @two a b ha hb =>
    have h1 : ¬ a ≤ 0x7F := by rw [UInt8.le_iff_toNat_le]; simp; omega
    have h2 : (0xC2 ≤ a && a ≤ 0xDF) = true := between_iff.2 ha
    simp [decodeChar?, h1, h2, isContinuation_iff.2 hb, continuationBits]
  | @three a b c ha hb hc hlong hsurrogate =>
    have h1 : ¬ a ≤ 0x7F := by rw [UInt8.le_iff_toNat_le]; simp; omega
    have h2 : ¬ (0xC2 ≤ a && a ≤ 0xDF) = true := by rw [between_iff]; simp; omega
    have h3 : (0xE0 ≤ a && a ≤ 0xEF) = true := between_iff.2 ha
    have hbounds : (isContinuation b && isContinuation c && (a != 0xE0 || 0xA0 ≤ b) &&
        (a != 0xED || b ≤ 0x9F)) = true := by
      rw [Bool.and_eq_true, Bool.and_eq_true, Bool.and_eq_true, isContinuation_iff, isContinuation_iff,
        ne_or_iff, ne_or_iff]
      exact ⟨⟨⟨hb, hc⟩, hlong⟩, hsurrogate⟩
    change decodeChar? (a :: b :: c :: rest) = _
    rw [decodeChar?, if_neg h1, if_neg h2, if_pos h3]
    exact if_pos hbounds
  | @four a b c d ha hb hc hd hlong hlast =>
    have h1 : ¬ a ≤ 0x7F := by rw [UInt8.le_iff_toNat_le]; simp; omega
    have h2 : ¬ (0xC2 ≤ a && a ≤ 0xDF) = true := by rw [between_iff]; simp; omega
    have h3 : ¬ (0xE0 ≤ a && a ≤ 0xEF) = true := by rw [between_iff]; simp; omega
    have h4 : (0xF0 ≤ a && a ≤ 0xF4) = true := between_iff.2 ha
    have hbounds : (isContinuation b && isContinuation c && isContinuation d &&
        (a != 0xF0 || 0x90 ≤ b) && (a != 0xF4 || b ≤ 0x8F)) = true := by
      rw [Bool.and_eq_true, Bool.and_eq_true, Bool.and_eq_true, Bool.and_eq_true, isContinuation_iff,
        isContinuation_iff, isContinuation_iff, ne_or_iff, ne_or_iff]
      exact ⟨⟨⟨⟨hb, hc⟩, hd⟩, hlong⟩, hlast⟩
    change decodeChar? (a :: b :: c :: d :: rest) = _
    rw [decodeChar?, if_neg h1, if_neg h2, if_neg h3, if_pos h4]
    exact if_pos hbounds

lemma spells_of_decodeChar? {c : Char} {size : Nat} (h : decodeChar? bytes = some (c, size)) :
    ∃ v front rest, Spells v front ∧ bytes = front ++ rest ∧ c = Char.ofNat v ∧ size = front.length := by
  unfold decodeChar? at h
  split at h
  · cases h
  next a rest =>
  split_ifs at h with h1 h2 h3 h4
  · obtain ⟨rfl, rfl⟩ := Prod.mk.inj (Option.some.inj h)
    exact ⟨_, [a], rest, .one (UInt8.le_iff_toNat_le.1 h1), rfl, rfl, rfl⟩
  · split at h
    · next b rest =>
      split_ifs at h with hb
      obtain ⟨rfl, rfl⟩ := Prod.mk.inj (Option.some.inj h)
      exact ⟨_, [a, b], rest, .two (between_iff.1 h2) (isContinuation_iff.1 hb), rfl, rfl, rfl⟩
    · cases h
  · split at h
    · next b d rest =>
      split_ifs at h with hbounds
      rw [Bool.and_eq_true, Bool.and_eq_true, Bool.and_eq_true, isContinuation_iff, isContinuation_iff,
        ne_or_iff, ne_or_iff] at hbounds
      obtain ⟨⟨⟨hb, hd⟩, hlong⟩, hsurrogate⟩ := hbounds
      obtain ⟨rfl, rfl⟩ := Prod.mk.inj (Option.some.inj h)
      exact ⟨_, [a, b, d], rest, .three (between_iff.1 h3) hb hd hlong hsurrogate, rfl, rfl, rfl⟩
    · cases h
  · split at h
    · next b d e rest =>
      split_ifs at h with hbounds
      rw [Bool.and_eq_true, Bool.and_eq_true, Bool.and_eq_true, Bool.and_eq_true, isContinuation_iff,
        isContinuation_iff, isContinuation_iff, ne_or_iff, ne_or_iff] at hbounds
      obtain ⟨⟨⟨⟨hb, hd⟩, he⟩, hlong⟩, hlast⟩ := hbounds
      obtain ⟨rfl, rfl⟩ := Prod.mk.inj (Option.some.inj h)
      exact ⟨_, [a, b, d, e], rest, .four (between_iff.1 h4) hb hd he hlong hlast, rfl, rfl, rfl⟩
    · cases h

lemma ofNat_byte {n : Nat} {a : UInt8} (h : n = a.toNat) : UInt8.ofNat n = a := by
  rw [h, UInt8.ofNat_toNat]

lemma encodeChar_of_spells (h : Spells v bytes) :
    encodeChar (Char.ofNat v) = bytes := by
  have hvalid : v.isValidChar := by
    cases h with
    | one ha => exact .inl (by omega)
    | @two a b ha hb => exact .inl (by unfold IsTail at hb; omega)
    | @three a b c ha hb hc hlong hsurrogate => unfold IsTail at hb hc; unfold Nat.isValidChar; omega
    | @four a b c d ha hb hc hd hlong hlast => unfold IsTail at hb hc hd; unfold Nat.isValidChar; omega
  have hv : (Char.ofNat v).val.toNat = v := by rw [Char.toNat_val, Char.toNat_ofNat, if_pos hvalid]
  unfold encodeChar String.utf8EncodeChar
  rw [hv]
  dsimp only
  cases h with
  | one ha => rw [if_pos ha, ofNat_byte rfl]
  | @two a b ha hb =>
    unfold IsTail at hb
    rw [if_neg (by omega), if_pos (by omega), ofNat_byte (a := a) (by omega), ofNat_byte (a := b) (by omega)]
  | @three a b c ha hb hc hlong hsurrogate =>
    unfold IsTail at hb hc
    rw [if_neg (by omega), if_neg (by omega), if_pos (by omega), ofNat_byte (a := a) (by omega),
      ofNat_byte (a := b) (by omega), ofNat_byte (a := c) (by omega)]
  | @four a b c d ha hb hc hd hlong hlast =>
    unfold IsTail at hb hc hd
    rw [if_neg (by omega), if_neg (by omega), if_neg (by omega), ofNat_byte (a := a) (by omega),
      ofNat_byte (a := b) (by omega), ofNat_byte (a := c) (by omega), ofNat_byte (a := d) (by omega)]

lemma toNat_byte {n : Nat} (h : n < 256) : (UInt8.ofNat n).toNat = n := by
  rw [UInt8.toNat_ofNat', Nat.mod_eq_of_lt h]

lemma spells_encodeChar (c : Char) : Spells c.toNat (encodeChar c) := by
  have hvalid : c.toNat.isValidChar := c.valid
  unfold encodeChar String.utf8EncodeChar
  rw [Char.toNat_val]
  generalize c.toNat = v at hvalid
  unfold Nat.isValidChar at hvalid
  have spells {n : Nat} {bytes : List UInt8} (h : Spells n bytes) (hn : n = v) : Spells v bytes :=
    hn ▸ h
  dsimp only
  split_ifs with h1 h2 h3
  · have ha := toNat_byte (n := v) (by omega)
    exact spells (.one (by omega)) ha
  · have ha := toNat_byte (n := v / 64 % 32 + 192) (by omega)
    have hb := toNat_byte (n := v % 64 + 128) (by omega)
    refine spells (.two ?_ ?_) ?_
    · omega
    · exact ⟨by omega, by omega⟩
    · omega
  · have ha := toNat_byte (n := v / 4096 % 16 + 224) (by omega)
    have hb := toNat_byte (n := v / 64 % 64 + 128) (by omega)
    have hc := toNat_byte (n := v % 64 + 128) (by omega)
    refine spells (.three ?_ ?_ ?_ ?_ ?_) ?_
    · omega
    · exact ⟨by omega, by omega⟩
    · exact ⟨by omega, by omega⟩
    · omega
    · omega
    · omega
  · have ha := toNat_byte (n := v / 262144 % 8 + 240) (by omega)
    have hb := toNat_byte (n := v / 4096 % 64 + 128) (by omega)
    have hc := toNat_byte (n := v / 64 % 64 + 128) (by omega)
    have hd := toNat_byte (n := v % 64 + 128) (by omega)
    refine spells (.four ?_ ?_ ?_ ?_ ?_ ?_) ?_
    · omega
    · exact ⟨by omega, by omega⟩
    · exact ⟨by omega, by omega⟩
    · exact ⟨by omega, by omega⟩
    · omega
    · omega
    · omega

lemma decodeChar?_encodeChar (c : Char) (rest : List UInt8) :
    decodeChar? (encodeChar c ++ rest) = some (c, (encodeChar c).length) := by
  rw [decodeChar?_of_spells (spells_encodeChar c), Char.ofNat_toNat]

lemma eq_encodeChar_of_decodeChar? {c : Char} {size : Nat}
    (h : decodeChar? bytes = some (c, size)) :
    bytes = encodeChar c ++ bytes.drop size ∧ size = (encodeChar c).length := by
  obtain ⟨v, front, rest, hspells, rfl, rfl, rfl⟩ := spells_of_decodeChar? h
  rw [encodeChar_of_spells hspells, List.drop_left]
  exact ⟨rfl, rfl⟩

end Characters

section Strings

/-- The text is that of the longest front part of a byte string that is an encoding at all. -/
def IsLongestFront (bytes : List UInt8) (v : Text) : Prop :=
  encode v <+: bytes ∧ ∀ t, encode t <+: bytes → (encode t).length ≤ (encode v).length

lemma encode_cons (c : Char) (t : Text) : encode (c :: t) = encodeChar c ++ encode t :=
  List.flatMap_cons

lemma encodeChar_ne_nil (c : Char) : encodeChar c ≠ [] := by
  intro h
  have hlength := congrArg List.length h
  rw [encodeChar, String.length_utf8EncodeChar] at hlength
  exact absurd hlength c.utf8Size_pos.ne'

lemma decodeWithin_eq {fuel : Nat} {bytes : List UInt8} (hfuel : bytes.length ≤ fuel) :
    bytes = encode (decodeWithin fuel bytes).1 ++ (decodeWithin fuel bytes).2 ∧
      decodeChar? (decodeWithin fuel bytes).2 = none := by
  induction fuel generalizing bytes with
  | zero =>
    obtain rfl := List.length_eq_zero_iff.1 (Nat.le_zero.1 hfuel)
    exact ⟨rfl, rfl⟩
  | succ fuel ih =>
    rw [decodeWithin]
    cases hchar : decodeChar? bytes with
    | none => exact ⟨rfl, hchar⟩
    | some found =>
      obtain ⟨c, size⟩ := found
      obtain ⟨hbytes, hsize⟩ := eq_encodeChar_of_decodeChar? hchar
      have hpos : 0 < size := hsize ▸ List.length_pos_of_ne_nil (encodeChar_ne_nil c)
      have hlength : (bytes.drop size).length ≤ fuel := by rw [List.length_drop]; omega
      obtain ⟨hrest, hnone⟩ := ih hlength
      refine ⟨?_, hnone⟩
      calc bytes = encodeChar c ++ bytes.drop size := hbytes
        _ = encodeChar c ++ (encode (decodeWithin fuel (bytes.drop size)).1 ++
            (decodeWithin fuel (bytes.drop size)).2) := by rw [← hrest]
        _ = encode (c :: (decodeWithin fuel (bytes.drop size)).1) ++
            (decodeWithin fuel (bytes.drop size)).2 := by rw [encode_cons, List.append_assoc]

lemma decode_eq (bytes : List UInt8) :
    bytes = encode (decode bytes).1 ++ (decode bytes).2 ∧ decodeChar? (decode bytes).2 = none :=
  decodeWithin_eq le_rfl

/-- A text whose encoding starts a byte string is a front part of another one if no character stands
behind the encoding of the other one. -/
lemma isFront_of_encode_isFront {t v : Text} {rest : List UInt8} (hrest : decodeChar? rest = none)
    (h : encode t <+: encode v ++ rest) : t <+: v := by
  induction t generalizing v with
  | nil => exact List.nil_prefix
  | cons c t ih =>
    obtain ⟨more, hmore⟩ := h
    rw [encode_cons, List.append_assoc] at hmore
    have hc := decodeChar?_encodeChar c (encode t ++ more)
    cases v with
    | nil =>
      rw [hmore] at hc
      exact absurd (hrest.symm.trans hc) (by simp)
    | cons d v =>
      rw [encode_cons, List.append_assoc] at hmore
      rw [hmore, decodeChar?_encodeChar] at hc
      obtain rfl := (Prod.mk.inj (Option.some.inj hc)).1
      exact (List.prefix_cons_inj d).2 (ih ⟨more, List.append_cancel_left hmore⟩)

lemma encode_append (t v : Text) : encode (t ++ v) = encode t ++ encode v := List.flatMap_append

lemma isLongestFront_decode (bytes : List UInt8) : IsLongestFront bytes (decode bytes).1 := by
  obtain ⟨heq, hnone⟩ := decode_eq bytes
  refine ⟨⟨_, heq.symm⟩, fun t ht => ?_⟩
  rw [heq] at ht
  obtain ⟨more, hmore⟩ := isFront_of_encode_isFront hnone ht
  rw [← hmore, encode_append, List.length_append]
  exact Nat.le_add_right _ _

lemma decode_encode (t : Text) : decode (encode t) = (t, []) := by
  obtain ⟨heq, hnone⟩ := decode_eq (encode t)
  obtain ⟨more, hmore⟩ := isFront_of_encode_isFront hnone ⟨[], by rw [List.append_nil, ← heq]⟩
  rw [← hmore, encode_append, List.append_assoc, List.self_eq_append_right,
    List.append_eq_nil_iff] at heq
  have hnil : more = [] := by
    cases more with
    | nil => rfl
    | cons c more =>
      rw [encode_cons, List.append_eq_nil_iff] at heq
      exact absurd heq.1.1 (encodeChar_ne_nil c)
  rw [hnil, List.append_nil] at hmore
  exact Prod.ext hmore.symm heq.2

lemma decode_complete_iff {bytes : List UInt8} :
    (decode bytes).2 = [] ↔ ∃ t, encode t = bytes := by
  constructor
  · intro h
    have heq := (decode_eq bytes).1
    rw [h, List.append_nil] at heq
    exact ⟨_, heq.symm⟩
  · rintro ⟨t, rfl⟩
    rw [decode_encode]

end Strings

end Text

section Sources

lemma isScalar_toNat (c : Char) : Source.isScalar c.toNat = true := by
  have hvalid : c.toNat.isValidChar := c.valid
  unfold Nat.isValidChar at hvalid
  rw [Source.isScalar, Bool.or_eq_true, Bool.and_eq_true]
  simpa using hvalid

lemma readable_codePoints (t : Text) (n : Nat) (rest : List Nat) (hn : Source.isScalar n = false) :
    (Source.codePoints (t.map Char.toNat ++ n :: rest)).readable = (t, false) := by
  have hfront : ((t.map Char.toNat ++ n :: rest).takeWhile Source.isScalar) = t.map Char.toNat := by
    rw [List.takeWhile_append_of_pos (by simp [isScalar_toNat]), List.takeWhile_cons_of_neg (by simp [hn]),
      List.append_nil]
  rw [Source.readable, hfront]
  simp [hn, Function.comp_def, Char.ofNat_toNat]

lemma tokenize_of_incomplete {source : Source} {v : Text} (h : source.readable = (v, false))
    (p : Position) : source.tokenize p = .error (.ofFault (p.after v) .invalidEncoding) := by
  rw [Source.tokenize, Source.decode, h]
  rfl

lemma tokenize_of_complete {source : Source} {t : Text} (h : source.readable = (t, true))
    (p : Position) : source.tokenize p = tokenize p t := by
  rw [Source.tokenize, Source.decode, h]
  rfl

/-- The bytes of a text have the outcome of the text. All other bytes are rejected behind their
longest front part that stores a text, whatever this text is, and code points are rejected in front
of their first surrogate. -/
theorem tokenize_bytes_as_text (p : Position) :
    (∀ (b : List UInt8) (t : Text), Text.encode t = b →
      (Source.bytes b).tokenize p = (Source.text t).tokenize p) ∧
    (∀ b : List UInt8, (∀ t, Text.encode t ≠ b) → ∃ v, Text.IsLongestFront b v ∧
      (Source.bytes b).tokenize p = .error (.ofFault (p.after v) .invalidEncoding) ∧
      (p.after v).offset = p.offset + (Text.encode v).length) ∧
    (∀ (t : Text) (surrogate : Nat) (rest : List Nat), 0xD800 ≤ surrogate → surrogate ≤ 0xDFFF →
      (Source.codePoints (t.map Char.toNat ++ surrogate :: rest)).tokenize p =
        .error (.ofFault (p.after t) .invalidEncoding)) := by
  refine ⟨fun b t hb => ?_, fun b hb => ?_, fun t surrogate rest hlow hhigh => ?_⟩
  · have hread : (Source.bytes b).readable = (t, true) := by
      rw [Source.readable, ← hb, Text.decode_encode]
      rfl
    rw [tokenize_of_complete hread, tokenize_of_complete rfl]
  · have hrest : (Text.decode b).2 ≠ [] := fun hnil =>
      (Text.decode_complete_iff.1 hnil).elim fun t ht => hb t ht
    have hread : (Source.bytes b).readable = ((Text.decode b).1, false) := by
      rw [Source.readable]
      simpa using hrest
    exact ⟨_, Text.isLongestFront_decode b, tokenize_of_incomplete hread p, offset_after p _⟩
  · have hsurrogate : Source.isScalar surrogate = false := by
      rw [Source.isScalar]
      simp
      omega
    exact tokenize_of_incomplete (readable_codePoints t surrogate rest hsurrogate) p

/-- A character of three bytes as bytes and as text, and an illegal token in front of a surrogate that
was encoded like a character, which has no encoding. -/
theorem tokenize_bytes_as_text_surrogate :
    (Source.bytes [0xE2, 0x82, 0xAC]).tokenize (.startOf "f") =
        (Source.text ['€']).tokenize (.startOf "f") ∧
      (∀ t, Text.encode t ≠ [0x00, 0x0A, 0xC3, 0xA9, 0xED, 0xA0, 0x80]) ∧
      (∃ v, Text.IsLongestFront [0x00, 0x0A, 0xC3, 0xA9, 0xED, 0xA0, 0x80] v ∧
        (Source.bytes [0x00, 0x0A, 0xC3, 0xA9, 0xED, 0xA0, 0x80]).tokenize (.startOf "f") =
          .error (.ofFault ((Position.startOf "f").after v) .invalidEncoding) ∧
        ((Position.startOf "f").after v).offset =
          (Position.startOf "f").offset + (Text.encode v).length) ∧
      (Source.codePoints [0x00, 0x0A, 0xE9, 0xDC00, 0xD800]).tokenize (.startOf "f") =
        .error (.ofFault ⟨"f", 2, 2, 4⟩ .invalidEncoding) := by
  obtain ⟨hsame, hother, hpoints⟩ := tokenize_bytes_as_text (.startOf "f")
  have hnone : ∀ t, Text.encode t ≠ [0x00, 0x0A, 0xC3, 0xA9, 0xED, 0xA0, 0x80] := by
    intro t ht
    have hrest := Text.decode_complete_iff.2 ⟨t, ht⟩
    exact absurd hrest (by decide)
  exact ⟨hsame _ _ (by decide), hnone, hother _ hnone,
    hpoints ['\x00', '\n', 'é'] 0xDC00 [0xD800] (by decide) (by decide)⟩

end Sources

end DpLang
