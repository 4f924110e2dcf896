import Mathlib

/-! # Byte strings

Fixed-width big-endian numbers and UTF-8 text as lists of bytes, and readers
that take them off the front of a byte string. A reader returns what it read
together with the remaining bytes and fails when too few are left.
-/

namespace Wire

/-- The low `width` bytes of a number, most significant first. -/
def beBytes : Nat → Nat → List UInt8
  | 0, _ => []
  | width + 1, n => UInt8.ofNat (n / 256 ^ width) :: beBytes width n

def beNat (bytes : List UInt8) : Nat := bytes.foldl (fun acc b => acc * 256 + b.toNat) 0

@[simp] theorem length_beBytes (width n : Nat) : (beBytes width n).length = width := by
  induction width with
  | zero => rfl
  | succ width ih => rw [beBytes, List.length_cons, ih]

/-- Reading continues any number read so far. -/
theorem foldl_beBytes (width n acc : Nat) :
    (beBytes width n).foldl (fun acc b => acc * 256 + b.toNat) acc =
      acc * 256 ^ width + n % 256 ^ width := by
  induction width generalizing acc with
  | zero => simp [beBytes, Nat.mod_one]
  | succ width ih =>
      rw [beBytes, List.foldl_cons, ih]
      have hbyte : (UInt8.ofNat (n / 256 ^ width)).toNat = n / 256 ^ width % 256 := by simp
      have hsplit : n % 256 ^ (width + 1) =
          256 ^ width * (n / 256 ^ width % 256) + n % 256 ^ width := by
        rw [Nat.pow_succ, Nat.mod_mul, Nat.add_comm]
      rw [hbyte, hsplit]
      ring

/-- A number that does not fit loses its high bytes. -/
theorem beNat_beBytes (width n : Nat) : beNat (beBytes width n) = n % 256 ^ width := by
  rw [beNat, foldl_beBytes, Nat.zero_mul, Nat.zero_add]

/-! ## Readers -/

def readU8 : List UInt8 → Option (UInt8 × List UInt8)
  | [] => none
  | b :: rest => some (b, rest)

def readBytes (n : Nat) (bytes : List UInt8) : Option (List UInt8 × List UInt8) :=
  if n ≤ bytes.length then some (bytes.take n, bytes.drop n) else none

def readNat (width : Nat) (bytes : List UInt8) : Option (Nat × List UInt8) :=
  (readBytes width bytes).map fun r => (beNat r.1, r.2)

@[simp] theorem readU8_cons (b : UInt8) (rest : List UInt8) : readU8 (b :: rest) = some (b, rest) :=
  rfl

@[simp] theorem readBytes_append (bytes rest : List UInt8) :
    readBytes bytes.length (bytes ++ rest) = some (bytes, rest) := by
  simp [readBytes]

/-- A number is read back up to its width. -/
theorem readNat_beBytes_mod (width n : Nat) (rest : List UInt8) :
    readNat width (beBytes width n ++ rest) = some (n % 256 ^ width, rest) := by
  have hread := readBytes_append (beBytes width n) rest
  rw [length_beBytes] at hread
  rw [readNat, hread, Option.map_some, beNat_beBytes]

/-- A number that fits is read back, and the reader stands behind it. -/
theorem readNat_beBytes (width : Nat) {n : Nat} (hfits : n < 256 ^ width) (rest : List UInt8) :
    readNat width (beBytes width n ++ rest) = some (n, rest) := by
  rw [readNat_beBytes_mod, Nat.mod_eq_of_lt hfits]

theorem foldl_lt (bytes : List UInt8) (acc : Nat) :
    bytes.foldl (fun acc b => acc * 256 + b.toNat) acc < (acc + 1) * 256 ^ bytes.length := by
  induction bytes generalizing acc with
  | nil => simp
  | cons b rest ih =>
      rw [List.foldl_cons, List.length_cons, Nat.pow_succ']
      have hbyte := b.toNat_lt
      calc rest.foldl (fun acc b => acc * 256 + b.toNat) (acc * 256 + b.toNat)
          < (acc * 256 + b.toNat + 1) * 256 ^ rest.length := ih _
        _ ≤ ((acc + 1) * 256) * 256 ^ rest.length := Nat.mul_le_mul_right _ (by omega)
        _ = (acc + 1) * (256 * 256 ^ rest.length) := Nat.mul_assoc _ _ _

/-- A number that was read has its width. -/
theorem readNat_lt {width n : Nat} {bytes rest : List UInt8}
    (hread : readNat width bytes = some (n, rest)) : n < 256 ^ width := by
  unfold readNat readBytes at hread
  split at hread
  next hlen =>
    cases hread
    have hbound := foldl_lt (bytes.take width) 0
    rwa [Nat.zero_add, Nat.one_mul, List.length_take_of_le hlen] at hbound
  next => cases hread

/-- A reader never gives back more than it was given. -/
theorem length_of_readBytes {n : Nat} {bytes part rest : List UInt8}
    (hread : readBytes n bytes = some (part, rest)) : rest.length ≤ bytes.length := by
  unfold readBytes at hread
  split at hread
  · cases hread
    rw [List.length_drop]
    exact Nat.sub_le _ _
  · cases hread

theorem length_of_readNat {width n : Nat} {bytes rest : List UInt8}
    (hread : readNat width bytes = some (n, rest)) : rest.length ≤ bytes.length := by
  obtain ⟨⟨part, rest'⟩, hpart, heq⟩ := Option.map_eq_some_iff.mp hread
  cases heq
  exact length_of_readBytes hpart

theorem length_of_readU8 {b : UInt8} {bytes rest : List UInt8}
    (hread : readU8 bytes = some (b, rest)) : rest.length < bytes.length := by
  cases bytes with
  | nil => cases hread
  | cons first bytes =>
      cases hread
      exact Nat.lt_succ_self _

/-! ## Text -/

def utf8 (s : String) : List UInt8 := s.toUTF8.data.toList

def secondByteOk (b0 b1 : UInt8) : Bool :=
  if b0 = 0xE0 then 0xA0 ≤ b1 && b1 ≤ 0xBF
  else if b0 = 0xED then 0x80 ≤ b1 && b1 ≤ 0x9F
  else if b0 = 0xF0 then 0x90 ≤ b1 && b1 ≤ 0xBF
  else if b0 = 0xF4 then 0x80 ≤ b1 && b1 ≤ 0x8F
  else 0x80 ≤ b1 && b1 ≤ 0xBF

def continuation (b : UInt8) : Bool := 0x80 ≤ b && b ≤ 0xBF

/-- Number of bytes of the character a byte begins; 0 if it begins none. -/
def charWidth (b0 : UInt8) : Nat :=
  if b0 < 0x80 then 1
  else if 0xC2 ≤ b0 && b0 ≤ 0xDF then 2
  else if 0xE0 ≤ b0 && b0 ≤ 0xEF then 3
  else if 0xF0 ≤ b0 && b0 ≤ 0xF4 then 4
  else 0

/-- How many continuation bytes of the character begun by `b0` are there, the
second byte under its own range. -/
def continued (b0 : UInt8) : List UInt8 → Nat
  | [] => 0
  | b1 :: rest =>
      if secondByteOk b0 b1 then
        1 + ((rest.take (charWidth b0 - 2)).takeWhile continuation).length
      else 0

/-- Characters of a byte string, each maximal ill-formed sequence replaced by
U+FFFD. The fuel is a bound on the number of bytes. -/
def lossyChars : Nat → List UInt8 → List Char
  | 0, _ => []
  | _, [] => []
  | fuel + 1, b0 :: rest =>
      if charWidth b0 = 1 then Char.ofNat b0.toNat :: lossyChars fuel rest
      else if charWidth b0 = 0 then '�' :: lossyChars fuel rest
      else
        let taken := continued b0 rest
        let lead := b0.toNat % 2 ^ (7 - charWidth b0)
        let code := (rest.take taken).foldl (fun acc b => acc * 64 + b.toNat % 64) lead
        if taken + 1 = charWidth b0 then Char.ofNat code :: lossyChars fuel (rest.drop taken)
        else '�' :: lossyChars fuel (rest.drop taken)

/-- `String::from_utf8_lossy`: well-formed text as it is. -/
def fromUtf8Lossy (bytes : List UInt8) : String :=
  match String.fromUTF8? ⟨bytes.toArray⟩ with
  | some s => s
  | none => String.ofList (lossyChars bytes.length bytes)

/-- The lossy decoder leaves well-formed text alone. -/
@[simp] theorem fromUtf8Lossy_utf8 (s : String) : fromUtf8Lossy (utf8 s) = s := by
  have hvalid : String.fromUTF8? s.toUTF8 = some s := by
    simp only [String.fromUTF8?, String.toUTF8_eq_toByteArray, s.isValidUTF8, dif_pos]
    rfl
  rw [fromUtf8Lossy, utf8, Array.toArray_toList, hvalid]

example : fromUtf8Lossy [0x61, 0xC3, 0xA9, 0xE2, 0x82, 0x62, 0xFF] = "aé�b�" := by decide

/-! ## First characters -/

theorem utf8_eq_flatMap (s : String) : utf8 s = s.toList.flatMap String.utf8EncodeChar := by
  rw [utf8, String.toUTF8_eq_toByteArray, ← String.utf8Encode_toList, List.utf8Encode]
  simp

/-- Byte lengths add up. -/
theorem length_utf8_append (s t : String) :
    (utf8 (s ++ t)).length = (utf8 s).length + (utf8 t).length := by
  rw [utf8_eq_flatMap, utf8_eq_flatMap, utf8_eq_flatMap, String.toList_append, List.flatMap_append,
    List.length_append]

/-- An ASCII byte at the head of a character's encoding is that character: no multi-byte
encoding begins with one. -/
theorem head?_utf8EncodeChar {c : Char} (hc : c.toNat < 128) (x : Char) :
    (String.utf8EncodeChar x).head? = some (UInt8.ofNat c.toNat) ↔ x = c := by
  have hval : ∀ n < 256, UInt8.ofNat n = UInt8.ofNat c.toNat ↔ n = c.toNat := by
    intro n hn
    rw [← UInt8.toNat_inj, UInt8.toNat_ofNat', UInt8.toNat_ofNat']
    omega
  have heq : x = c ↔ x.val.toNat = c.toNat := by
    rw [← Char.toNat_inj]
    rfl
  unfold String.utf8EncodeChar
  dsimp only
  split_ifs <;> rw [List.head?_cons, Option.some.injEq, hval _ (by omega), heq] <;> omega

/-- A text begins with an ASCII character if its bytes do. -/
theorem head?_utf8 {c : Char} (hc : c.toNat < 128) (s : String) :
    (utf8 s).head? = some (UInt8.ofNat c.toNat) ↔ s.toList.head? = some c := by
  rw [utf8_eq_flatMap]
  cases hs : s.toList with
  | nil => simp
  | cons x xs =>
      rw [List.flatMap_cons, List.head?_append_of_ne_nil _ String.utf8EncodeChar_ne_nil,
        head?_utf8EncodeChar hc, List.head?_cons, Option.some.injEq]

theorem le_foldl_bits (bytes : List UInt8) (acc : Nat) :
    acc * 64 ^ bytes.length ≤ bytes.foldl (fun acc b => acc * 64 + b.toNat % 64) acc := by
  induction bytes generalizing acc with
  | nil => simp
  | cons b bytes ih =>
      rw [List.foldl_cons, List.length_cons]
      refine Nat.le_trans ?_ (ih _)
      rw [pow_succ, mul_comm (64 ^ _), ← mul_assoc]
      exact Nat.mul_le_mul_right _ (Nat.le_add_right _ _)

theorem continued_le (b0 : UInt8) (rest : List UInt8) : continued b0 rest ≤ rest.length := by
  cases rest with
  | nil => exact Nat.zero_le _
  | cons b1 rest =>
      rw [continued]
      split
      · have htake := (List.takeWhile_prefix (l := rest.take (charWidth b0 - 2))
          continuation).length_le
        rw [List.length_take] at htake
        rw [List.length_cons]
        omega
      · exact Nat.zero_le _

theorem secondByteOk_bounds {b0 b1 : UInt8} (hsecond : secondByteOk b0 b1 = true) :
    128 ≤ b1.toNat ∧ b1.toNat ≤ 191 ∧ (b0.toNat = 0xE0 → 160 ≤ b1.toNat) ∧
      (b0.toNat = 0xF0 → 144 ≤ b1.toNat) := by
  simp only [secondByteOk, ← UInt8.toNat_inj, UInt8.le_iff_toNat_le] at hsecond
  split_ifs at hsecond <;> simp at * <;> omega

/-- The lead bytes of multi-byte characters by width. -/
theorem charWidth_bounds {b0 : UInt8} (hwidth : 2 ≤ charWidth b0) :
    (charWidth b0 = 2 ∧ 0xC2 ≤ b0.toNat ∧ b0.toNat ≤ 0xDF) ∨
      (charWidth b0 = 3 ∧ 0xE0 ≤ b0.toNat ∧ b0.toNat ≤ 0xEF) ∨
      (charWidth b0 = 4 ∧ 0xF0 ≤ b0.toNat ∧ b0.toNat ≤ 0xF4) := by
  unfold charWidth at hwidth ⊢
  simp only [UInt8.lt_iff_toNat_lt, Bool.and_eq_true, decide_eq_true_eq, UInt8.le_iff_toNat_le]
    at hwidth ⊢
  split_ifs at hwidth ⊢ <;> simp at * <;> omega

/-- A character of several bytes is not an ASCII character. -/
theorem le_code {b0 b1 : UInt8} (rest : List UInt8) (hwidth : 2 ≤ charWidth b0)
    (hlength : rest.length + 2 = charWidth b0) (hsecond : secondByteOk b0 b1 = true) :
    128 ≤ rest.foldl (fun acc b => acc * 64 + b.toNat % 64)
      (b0.toNat % 2 ^ (7 - charWidth b0) * 64 + b1.toNat % 64) := by
  refine Nat.le_trans ?_ (le_foldl_bits rest _)
  obtain ⟨hlow, hhigh, hE0, hF0⟩ := secondByteOk_bounds hsecond
  rcases charWidth_bounds hwidth with ⟨hw, hmin, hmax⟩ | ⟨hw, hmin, hmax⟩ | ⟨hw, hmin, hmax⟩
  · obtain hrest : rest.length = 0 := by omega
    simp only [hw, hrest]
    omega
  · obtain hrest : rest.length = 1 := by omega
    simp only [hw, hrest]
    omega
  · obtain hrest : rest.length = 2 := by omega
    simp only [hw, hrest]
    omega

/-- A decoded code point above ASCII is no ASCII character, surrogates included. -/
theorem toNat_ofNat_ne {code : Nat} {c : Char} (hcode : 128 ≤ code) (hpos : c.toNat ≠ 0)
    (hc : c.toNat < 128) : Char.ofNat code ≠ c := by
  rintro rfl
  rw [Char.toNat_ofNat] at hpos hc
  split at hc
  · omega
  next hinvalid => exact hpos (if_neg hinvalid)

/-- The code of a complete character of several bytes. -/
theorem le_code_of_continued {b0 : UInt8} {rest : List UInt8} (hone : charWidth b0 ≠ 1)
    (htaken : continued b0 rest + 1 = charWidth b0) :
    128 ≤ (rest.take (continued b0 rest)).foldl (fun acc b => acc * 64 + b.toNat % 64)
      (b0.toNat % 2 ^ (7 - charWidth b0)) := by
  have hle := continued_le b0 rest
  cases rest with
  | nil => exact absurd htaken.symm hone
  | cons b1 rest =>
      rw [continued] at htaken hle ⊢
      split at htaken
      next hsecond =>
        rw [if_pos hsecond] at hle ⊢
        rw [Nat.add_comm 1, List.take_succ_cons, List.foldl_cons]
        refine le_code _ (by omega) ?_ hsecond
        rw [List.length_take]
        rw [List.length_cons] at hle
        omega
      next => exact absurd htaken.symm hone

/-- The lossy decoder invents no ASCII character at the head of a text. -/
theorem head?_lossyChars {c : Char} (hpos : c.toNat ≠ 0) (hc : c.toNat < 128) {fuel : Nat}
    {bytes : List UInt8} (hhead : (lossyChars fuel bytes).head? = some c) :
    bytes.head? = some (UInt8.ofNat c.toNat) := by
  have hreplacement : '\uFFFD' ≠ c := by
    rintro rfl
    exact absurd hc (by decide)
  cases fuel with
  | zero => cases hhead
  | succ fuel =>
      cases bytes with
      | nil => cases hhead
      | cons b0 rest =>
          rw [lossyChars] at hhead
          split at hhead
          next hone =>
            -- an ASCII byte stands for itself
            rw [List.head?_cons, Option.some.injEq] at hhead ⊢
            have hascii : b0 < 0x80 := by
              by_contra h80
              unfold charWidth at hone
              rw [if_neg h80] at hone
              split_ifs at hone <;> cases hone
            have hnat : c.toNat = b0.toNat := by
              have hlt : b0.toNat < 128 := UInt8.lt_iff_toNat_lt.mp hascii
              rw [← hhead, Char.toNat_ofNat, if_pos (Or.inl (by omega))]
            rw [hnat, UInt8.ofNat_toNat]
          next hone =>
            split at hhead
            · exact absurd (Option.some.inj hhead) hreplacement
            · dsimp only at hhead
              split at hhead
              next htaken =>
                have hcode := le_code_of_continued hone htaken
                exact absurd (Option.some.inj hhead) (toNat_ofNat_ne hcode hpos hc)
              next => exact absurd (Option.some.inj hhead) hreplacement

/-- Decoded text begins with an ASCII character only if the bytes do. -/
theorem head?_fromUtf8Lossy {c : Char} (hpos : c.toNat ≠ 0) (hc : c.toNat < 128)
    {bytes : List UInt8} (hhead : (fromUtf8Lossy bytes).toList.head? = some c) :
    bytes.head? = some (UInt8.ofNat c.toNat) := by
  unfold fromUtf8Lossy at hhead
  split at hhead
  next s hs =>
    have hbytes : utf8 s = bytes := by
      unfold String.fromUTF8? at hs
      split at hs
      · cases hs
        rfl
      · cases hs
    rw [← hbytes]
    exact (head?_utf8 hc s).mpr hhead
  next =>
    rw [String.toList_ofList] at hhead
    exact head?_lossyChars hpos hc hhead

end Wire
