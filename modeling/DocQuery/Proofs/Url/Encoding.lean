import DocQuery.Proofs.Url.Segments

/-! # Encoded text read back

Decoding the encoded bytes of a text without percent signs gives the bytes of the text, so such texts are
told apart by what they are encoded as. A segment of one is dots only if it was written as dots.
-/
namespace DocQuery.Url

def bytes (s : List Char) : List UInt8 := s.flatMap String.utf8EncodeChar

def byteChar (b : UInt8) : Char := Char.ofNat b.toNat

theorem bytes_inj {s t : List Char} (h : bytes s = bytes t) : s = t := by
  have hencoded : s.utf8Encode = t.utf8Encode := congrArg List.toByteArray h
  rw [← String.toByteArray_ofList, ← String.toByteArray_ofList] at hencoded
  exact String.ofList_injective (String.toByteArray_inj.1 hencoded)

theorem byteChar_inj {a b : UInt8} (h : byteChar a = byteChar b) : a = b := by
  have hback : ∀ n < 256, (Char.ofNat n).toNat = n := by decide +kernel
  have ha : a.toNat < 256 := a.toNat_lt
  have hb : b.toNat < 256 := b.toNat_lt
  refine UInt8.toNat_inj.1 ?_
  rw [← hback _ ha, ← hback _ hb]
  exact congrArg Char.toNat h

theorem decodeBytes_cons {c : Char} (hc : c ≠ '%') (r : List Char) :
    decodeBytes (c :: r) = c :: decodeBytes r := by
  simp [decodeBytes, hc]

theorem decodeBytes_hex {h l b : Char} (hb : hexByte h l = some b) (r : List Char) :
    decodeBytes ('%' :: h :: l :: r) = b :: decodeBytes r := by
  simp [decodeBytes, hb]

theorem hexByte_upperHex :
    ∀ n < 256, hexByte (upperHex (n / 16)) (upperHex (n % 16)) = some (Char.ofNat n) := by
  decide +kernel

theorem decodeBytes_encodeByte (bs : List UInt8) (r : List Char) :
    decodeBytes (bs.flatMap encodeByte ++ r) = bs.map byteChar ++ decodeBytes r := by
  induction bs with
  | nil => rfl
  | cons b bs ih =>
    have hb : hexByte (upperHex (b.toNat / 16)) (upperHex (b.toNat % 16)) = some (byteChar b) :=
      hexByte_upperHex b.toNat b.toNat_lt
    calc decodeBytes ((b :: bs).flatMap encodeByte ++ r)
        = decodeBytes ('%' :: upperHex (b.toNat / 16) :: upperHex (b.toNat % 16) ::
            (bs.flatMap encodeByte ++ r)) := rfl
      _ = byteChar b :: decodeBytes (bs.flatMap encodeByte ++ r) := decodeBytes_hex hb _
      _ = (b :: bs).map byteChar ++ decodeBytes r := by rw [ih]; rfl

/-- Characters of ASCII are one byte. -/
theorem utf8EncodeChar_of_not_isControl {c : Char} (hc : isControl c = false) :
    (String.utf8EncodeChar c).map byteChar = [c] := by
  simp only [isControl, Bool.or_eq_false_iff, decide_eq_false_iff_not, UInt32.not_lt] at hc
  have hle : c.toNat ≤ 0x7e := UInt32.le_iff_toNat_le.1 hc.2
  have hall : ∀ n < 0x7f, (String.utf8EncodeChar (Char.ofNat n)).map byteChar = [Char.ofNat n] := by
    decide +kernel
  have hlt : c.toNat < 0x7f := by omega
  simpa using hall c.toNat hlt

section
variable {set : Char → Bool} (hset : ∀ c, isControl c = true → set c = true)
include hset

theorem decodeBytes_encode {s : List Char} (hs : '%' ∉ s) :
    decodeBytes (encode set s) = (bytes s).map byteChar := by
  induction s with
  | nil => rfl
  | cons c s ih =>
    have hc : c ≠ '%' := fun h => hs (h ▸ List.mem_cons_self)
    have hrest := ih fun h => hs (List.mem_cons_of_mem c h)
    have hencode : encode set (c :: s) = encodeChar set c ++ encode set s := rfl
    have hbytes : bytes (c :: s) = String.utf8EncodeChar c ++ bytes s := rfl
    rw [hencode, hbytes, List.map_append, ← hrest, encodeChar]
    split
    · exact decodeBytes_encodeByte _ _
    · rename_i hin
      have hcontrol : isControl c = false := Bool.eq_false_iff.2 fun h => hin (hset c h)
      rw [utf8EncodeChar_of_not_isControl hcontrol]
      exact decodeBytes_cons hc _

/-- What decodes to the bytes of a text was encoded from it. -/
theorem eq_of_decodeBytes_encode {s t : List Char} (hs : '%' ∉ s)
    (h : decodeBytes (encode set s) = (bytes t).map byteChar) : s = t := by
  rw [decodeBytes_encode hset hs] at h
  exact bytes_inj (List.map_injective_iff.2 (fun _ _ => byteChar_inj) h)

theorem encode_inj {s t : List Char} (hs : '%' ∉ s) (ht : '%' ∉ t) (h : encode set s = encode set t) :
    s = t :=
  eq_of_decodeBytes_encode hset hs (by rw [h, decodeBytes_encode hset ht])

end

theorem encode_of_forall {set : Char → Bool} {s : List Char} (h : ∀ c ∈ s, set c = false) :
    encode set s = s := by
  induction s with
  | nil => rfl
  | cons c s ih =>
    have hencode : encode set (c :: s) = encodeChar set c ++ encode set s := rfl
    rw [hencode, ih fun d hd => h d (List.mem_cons_of_mem c hd), encodeChar,
      h c List.mem_cons_self]
    rfl

theorem inFragmentSet_of_isControl {c : Char} (h : isControl c = true) : inFragmentSet c = true := by
  simp [inFragmentSet, h]

theorem inPathSet_of_isControl {c : Char} (h : isControl c = true) : inPathSet c = true := by
  simp [inPathSet, inFragmentSet_of_isControl h]

theorem inSpecialQuerySet_of_isControl {c : Char} (h : isControl c = true) :
    inSpecialQuerySet c = true := by
  simp [inSpecialQuerySet, inQuerySet, h]

theorem decodeBytes_of_dropDot {s r : List Char} (h : dropDot s = some r) :
    decodeBytes s = '.' :: decodeBytes r := by
  unfold dropDot at h
  split at h
  · cases h
    exact decodeBytes_cons (by decide) _
  · cases h
    exact decodeBytes_hex (by decide) _
  · cases h
    exact decodeBytes_hex (by decide) _
  · cases h

theorem decodeBytes_of_isOneDot {s : Segment} (h : isOneDot s = true) : decodeBytes s = ['.'] :=
  decodeBytes_of_dropDot (of_decide_eq_true h)

theorem decodeBytes_of_isTwoDots {s : Segment} (h : isTwoDots s = true) :
    decodeBytes s = ['.', '.'] := by
  obtain ⟨r, hr, hdot⟩ := (Option.any_eq_true _ _).1 h
  rw [decodeBytes_of_dropDot hr, decodeBytes_of_isOneDot hdot]

/-- A raw segment that is read as no dots: without percent signs, only dots are. -/
structure Plain (s : Segment) : Prop where
  percent : '%' ∉ s
  oneDot : s ≠ ['.']
  twoDots : s ≠ ['.', '.']

theorem Plain.move {s : Segment} (h : Plain s) :
    Move.of (encode inPathSet s) = .into (encode inPathSet s) := by
  have htwo : ¬ isTwoDots (encode inPathSet s) = true := fun hdots =>
    h.twoDots (eq_of_decodeBytes_encode (fun _ => inPathSet_of_isControl) h.percent
      (decodeBytes_of_isTwoDots hdots))
  have hone : ¬ isOneDot (encode inPathSet s) = true := fun hdot =>
    h.oneDot (eq_of_decodeBytes_encode (fun _ => inPathSet_of_isControl) h.percent
      (decodeBytes_of_isOneDot hdot))
  rw [Move.of, if_neg htwo, if_neg hone]

/-- Plain segments are put behind those that are there. -/
theorem resolve_of_plain {ss : List Segment} (h : ∀ s ∈ ss, Plain s) (done : List Segment) :
    resolve done ss = done ++ ss.map (encode inPathSet) := by
  induction ss generalizing done with
  | nil => exact (List.append_nil done).symm
  | cons s ss ih =>
    have hmove := (h s List.mem_cons_self).move
    cases ss with
    | nil => simp [resolve, lastSegment, hmove]
    | cons t ss =>
      rw [resolve, ih (fun q hq => h q (List.mem_cons_of_mem s hq)), closeSegment, hmove]
      · simp
      · exact List.cons_ne_nil t ss

end DocQuery.Url
