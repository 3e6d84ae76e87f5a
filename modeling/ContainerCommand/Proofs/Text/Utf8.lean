import ContainerCommand.Proofs.Success
import ContainerCommand.Text.Utf8

/-! Texts and their bytes.

The bytes of a text are read as that text (`decode?_encode`). Each character is read from its own bytes
alone (`decodeEach_utf8EncodeChar`): the first byte says how many follow, and each of these carries six
bits of the value. -/
namespace ContainerCommand.Text
open String (utf8EncodeChar)

variable {v : Nat} {bytes rest : List UInt8}

/-! ### The first byte -/

theorem lead?_of_two (h : 0x80 ≤ v) (h' : v ≤ 0x7FF) :
    lead? (v / 64 % 0x20 + 0xC0) = some ⟨1, v / 64, 0x80, 0xBF⟩ := by
  have hshare : v / 64 % 0x20 = v / 64 := Nat.mod_eq_of_lt (by omega)
  rw [lead?, hshare, if_pos (by omega), Nat.add_sub_cancel]

/-- Of three bytes the second has a narrower range where the value would be one of fewer bytes or none
of a character. -/
theorem lead?_of_three (h : 0x7FF < v) (h' : v ≤ 0xFFFF) (hvalid : v < 0xD800 ∨ 0xDFFF < v) :
    ∃ least greatest, lead? (v / 4096 % 0x10 + 0xE0) = some ⟨2, v / 4096, least, greatest⟩ ∧
      least ≤ v / 64 % 0x40 + 0x80 ∧ v / 64 % 0x40 + 0x80 ≤ greatest := by
  have hshare : v / 4096 % 0x10 = v / 4096 := Nat.mod_eq_of_lt (by omega)
  rw [lead?, hshare, if_neg (by omega)]
  split_ifs with hfirst hlast hbetween
  · exact ⟨0xA0, 0xBF, by simp; omega, by omega, by omega⟩
  · exact ⟨0x80, 0x9F, by simp; omega, by omega, by omega⟩
  · exact ⟨0x80, 0xBF, by rw [Nat.add_sub_cancel], by omega, by omega⟩
  all_goals omega

/-- So it has of four bytes where the value would be one of fewer bytes or too large. -/
theorem lead?_of_four (h : 0xFFFF < v) (hvalid : v < 0x110000) :
    ∃ least greatest, lead? (v / 262144 % 0x08 + 0xF0) = some ⟨3, v / 262144, least, greatest⟩ ∧
      least ≤ v / 4096 % 0x40 + 0x80 ∧ v / 4096 % 0x40 + 0x80 ≤ greatest := by
  have hshare : v / 262144 % 0x08 = v / 262144 := Nat.mod_eq_of_lt (by omega)
  rw [lead?, hshare, if_neg (by omega), if_neg (by omega), if_neg (by omega), if_neg (by omega)]
  split_ifs with hfirst hlast hbetween
  · exact ⟨0x90, 0xBF, by simp; omega, by omega, by omega⟩
  · exact ⟨0x80, 0x8F, by simp; omega, by omega, by omega⟩
  · exact ⟨0x80, 0xBF, by rw [Nat.add_sub_cancel], by omega, by omega⟩
  · omega

/-! ### The bytes that follow it -/

/-- A byte that follows adds six bits to the value. -/
theorem follow_ofNat {n value least greatest : Nat} (hleast : least ≤ v % 0x40 + 0x80)
    (hgreatest : v % 0x40 + 0x80 ≤ greatest) :
    follow (n + 1) value least greatest (UInt8.ofNat (v % 0x40 + 0x80) :: bytes) =
      follow n (64 * value + v % 0x40) 0x80 0xBF bytes := by
  have hbyte : (UInt8.ofNat (v % 0x40 + 0x80)).toNat = v % 0x40 + 0x80 :=
    UInt8.toNat_ofNat_of_lt' (by simp [UInt8.size]; omega)
  rw [follow, hbyte, if_pos ⟨hleast, hgreatest⟩, Nat.add_sub_cancel]

theorem decodeEach_of_lead? {b count share least greatest : Nat} (hb : 0x80 ≤ b) (hb' : b < 256)
    (hlead : lead? b = some ⟨count, share, least, greatest⟩)
    (hfollow : follow count share least greatest bytes = (some v, rest)) :
    decodeEach (UInt8.ofNat b :: bytes) = some (Char.ofNat v) :: decodeEach rest := by
  have hbyte : (UInt8.ofNat b).toNat = b := UInt8.toNat_ofNat_of_lt' hb'
  rw [decodeEach, hbyte, if_neg (by omega), hlead]
  simp only [hfollow, Option.map_some]

/-! ### Texts -/

/-- The bytes of a character are read as that character, whatever follows. -/
theorem decodeEach_utf8EncodeChar (c : Char) (rest : List UInt8) :
    decodeEach (utf8EncodeChar c ++ rest) = some c :: decodeEach rest := by
  have hvalid : c.val.toNat < 0xD800 ∨ 0xDFFF < c.val.toNat ∧ c.val.toNat < 0x110000 := c.valid
  have hc : Char.ofNat c.val.toNat = c := Char.ofNat_toNat c
  suffices h : decodeEach (utf8EncodeChar c ++ rest) =
      some (Char.ofNat c.val.toNat) :: decodeEach rest by rwa [hc] at h
  rw [utf8EncodeChar]
  generalize c.val.toNat = v at hvalid
  split_ifs with hone htwo hthree <;> simp only [List.cons_append, List.nil_append]
  · have hbyte : (UInt8.ofNat v).toNat = v := UInt8.toNat_ofNat_of_lt' (by simp [UInt8.size]; omega)
    rw [decodeEach, hbyte, if_pos (by omega)]
  · refine decodeEach_of_lead? (by omega) (by omega) (lead?_of_two (by omega) htwo) ?_
    rw [follow_ofNat (by omega) (by omega), follow]
    congr 2
    omega
  · obtain ⟨least, greatest, hlead, hleast, hgreatest⟩ :=
      lead?_of_three (by omega) hthree (hvalid.imp_right And.left)
    refine decodeEach_of_lead? (by omega) (by omega) hlead ?_
    rw [follow_ofNat hleast hgreatest, follow_ofNat (by omega) (by omega), follow]
    congr 2
    omega
  · obtain ⟨least, greatest, hlead, hleast, hgreatest⟩ :=
      lead?_of_four (v := v) (by omega) (by omega)
    refine decodeEach_of_lead? (by omega) (by omega) hlead ?_
    rw [follow_ofNat hleast hgreatest, follow_ofNat (by omega) (by omega),
      follow_ofNat (by omega) (by omega), follow]
    congr 2
    omega

/-- **The bytes of a text are read as that text.** -/
theorem decode?_encode (s : String) : decode? (encode s) = some s := by
  have heach : decodeEach (encode s) = s.toList.map some := by
    rw [encode]
    induction s.toList with
    | nil => simp [decodeEach]
    | cons c cs ih => rw [List.flatMap_cons, decodeEach_utf8EncodeChar, ih, List.map_cons]
  have hall : (s.toList.map some).mapM id = some s.toList := by
    rw [mapM_eq_some_iff, List.forall₂_map_left_iff, List.forall₂_same]
    exact fun _ _ => rfl
  rw [decode?, heach, hall, Option.map_some, String.ofList_toList]

end ContainerCommand.Text
