import Mathlib.Data.String.Basic
import GraphLanguages.Proofs.Transport.Encoding

/-! Texts and their bytes have one order.

Of two characters the greater one has the greater bytes, at the first place where they differ
(`utf8EncodeChar_append_lt`): more bytes begin with a greater one, and as many bytes hold the
digits of the code points to the base 64. So texts compare byte by byte as they do character
by character (`encode_lt_encode_iff`). -/
namespace GraphLanguages.Transport

/-- The last digit to the base 64 counts where the others are the same. -/
theorem lt_iff_sextets (m n : Nat) :
    m < n ↔ m / 64 < n / 64 ∨ m / 64 = n / 64 ∧ m % 64 < n % 64 := by
  omega

theorem utf8EncodeChar_append_lt {c d : Char} (h : c < d) (as bs : List UInt8) :
    String.utf8EncodeChar c ++ as < String.utf8EncodeChar d ++ bs := by
  have hlt (m n : Nat) : UInt8.ofNat m < UInt8.ofNat n ↔ m % 256 < n % 256 := by
    rw [UInt8.lt_iff_toNat_lt, UInt8.toNat_ofNat', UInt8.toNat_ofNat']
  have heq (m n : Nat) : UInt8.ofNat m = UInt8.ofNat n ↔ m % 256 = n % 256 := by
    rw [← UInt8.toNat_inj, UInt8.toNat_ofNat', UInt8.toNat_ofNat']
  have hcode : c.val.toNat < d.val.toNat := h
  have hlast : d.val.toNat < 0xD800 ∨ 0xDFFF < d.val.toNat ∧ d.val.toNat < 0x110000 := d.valid
  have hdigits := hcode
  rw [lt_iff_sextets, lt_iff_sextets (_ / 64), lt_iff_sextets (_ / 64 / 64)] at hdigits
  simp only [Nat.div_div_eq_div_mul, Nat.reduceMul] at hdigits
  simp only [String.utf8EncodeChar]
  generalize c.val.toNat = m at hcode hdigits
  generalize d.val.toNat = n at hcode hlast hdigits
  -- One case for each pair of lengths. Digits are small enough for the marks of their bytes.
  split_ifs <;>
    simp (disch := omega) only [List.cons_append, List.nil_append, List.cons_lt_cons_iff, hlt, heq,
      Nat.mod_eq_of_lt] <;>
    omega

theorem utf8_lt_utf8_of_lt {as bs : List Char} (h : as < bs) : utf8 as < utf8 bs := by
  induction as generalizing bs with
  | nil =>
    cases bs with
    | nil => exact absurd h (List.not_lt_nil [])
    | cons d bs =>
      have hne : utf8 (d :: bs) ≠ [] := fun hnil => List.cons_ne_nil d bs (utf8_eq_nil.mp hnil)
      obtain ⟨b, bytes, hbytes⟩ := List.exists_cons_of_ne_nil hne
      rw [hbytes]
      exact List.nil_lt_cons b bytes
  | cons c as ih =>
    cases bs with
    | nil => exact absurd h (List.not_lt_nil _)
    | cons d bs =>
      rw [utf8_cons, utf8_cons]
      rcases List.cons_lt_cons_iff.mp h with hlt | ⟨rfl, hlt⟩
      · exact utf8EncodeChar_append_lt hlt _ _
      · exact List.append_left_lt (ih hlt)

theorem encode_lt_encode_iff {s t : String} : encode s < encode t ↔ s < t := by
  rw [encode_eq, encode_eq, String.lt_iff_toList_lt]
  refine ⟨fun h => ?_, utf8_lt_utf8_of_lt⟩
  by_contra hle
  rcases List.le_iff_lt_or_eq.mp (List.not_lt.mp hle) with hlt | heq
  · exact List.lt_asymm (utf8_lt_utf8_of_lt hlt) h
  · exact List.lt_irrefl _ (heq ▸ h)

theorem encode_le_encode_iff {s t : String} : encode s ≤ encode t ↔ s ≤ t := by
  rw [← not_lt, ← List.not_lt, encode_lt_encode_iff]

end GraphLanguages.Transport
