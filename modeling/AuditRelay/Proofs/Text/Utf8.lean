import AuditRelay.Text.Utf8
import Mathlib.Data.List.Basic

/-!
# AuditRelay.Proofs.Text.Utf8 — the octets of a text

A character below `U+0080` is one octet of the same number, and every other is encoded by octets
from `0x80` on. So an octet of one kind is never mistaken for a part of the other. The octets of a
text are read as that text and no other (`ofOctets?_octets`, `octets_of_ofOctets?`).
-/

namespace AuditRelay.Text

theorem encode_ascii {c : Char} (h : c.toNat < 0x80) : String.utf8EncodeChar c = [c.toUInt8] := by
  have hv : c.val.toNat ≤ 0x7f := Nat.le_of_lt_succ h
  simp only [String.utf8EncodeChar, if_pos hv]
  rfl

theorem le_of_mem_encode {c : Char} (h : 0x80 ≤ c.toNat) :
    ∀ b ∈ String.utf8EncodeChar c, 0x80 ≤ b := by
  have hv : ¬ c.val.toNat ≤ 0x7f := Nat.not_le.mpr h
  have key : ∀ n : Nat, 0x80 ≤ n → n < 256 → (0x80 : UInt8) ≤ UInt8.ofNat n := by
    intro n hlo hhi
    rw [UInt8.le_iff_toNat_le, UInt8.toNat_ofNat_of_lt' hhi]
    exact hlo
  intro b hb
  simp only [String.utf8EncodeChar, if_neg hv] at hb
  split at hb
  · simp only [List.mem_cons, List.not_mem_nil, or_false] at hb
    rcases hb with rfl | rfl <;> apply key <;> omega
  · split at hb
    · simp only [List.mem_cons, List.not_mem_nil, or_false] at hb
      rcases hb with rfl | rfl | rfl <;> apply key <;> omega
    · simp only [List.mem_cons, List.not_mem_nil, or_false] at hb
      rcases hb with rfl | rfl | rfl | rfl <;> apply key <;> omega

theorem toNat_toUInt8 {c : Char} (h : c.toNat < 0x80) : c.toUInt8.toNat = c.toNat := by
  have hm : c.toUInt8.toNat = c.toNat % 256 := rfl
  rw [hm]
  omega

/-- No octet of a character is smaller than the space, unless the character is a control. -/
theorem space_le_of_mem_encode {c : Char} (h : 0x20 ≤ c.toNat) :
    ∀ b ∈ String.utf8EncodeChar c, 0x20 ≤ b := by
  intro b hb
  rcases Nat.lt_or_ge c.toNat 0x80 with hc | hc
  · rw [encode_ascii hc, List.mem_singleton] at hb
    rw [hb, UInt8.le_iff_toNat_le, toNat_toUInt8 hc]
    exact h
  · have hle : (0x20 : UInt8) ≤ 0x80 := by decide
    exact UInt8.le_trans hle (le_of_mem_encode hc b hb)

theorem octets_ofList (cs : List Char) :
    octets (String.ofList cs) = cs.flatMap String.utf8EncodeChar := by
  rw [octets, String.toList_ofList]

theorem octets_append (s t : String) : octets (s ++ t) = octets s ++ octets t := by
  rw [octets, octets, octets, String.toList_append, List.flatMap_append]

theorem octets_ascii {cs : List Char} (h : ∀ c ∈ cs, c.toNat < 0x80) :
    octets (String.ofList cs) = cs.map Char.toUInt8 := by
  rw [octets_ofList]
  induction cs with
  | nil => rfl
  | cons c cs ih =>
    rw [List.flatMap_cons, encode_ascii (h c List.mem_cons_self),
      ih fun c hc => h c (List.mem_cons_of_mem _ hc), List.map_cons, List.singleton_append]

theorem octets_toString_negSucc (n : Nat) :
    octets (toString (Int.negSucc n)) = '-'.toUInt8 :: octets (toString (n + 1)) := by
  have hs : toString (Int.negSucc n) = "-" ++ toString (n + 1) := rfl
  rw [hs, octets_append]
  rfl

/-! ## Octets read as a text -/

theorem toByteArray_eq_octets (s : String) : s.toByteArray = ⟨(octets s).toArray⟩ := by
  have hdata : s.toList.utf8Encode.data = (octets s).toArray := List.data_toByteArray
  rw [← String.utf8Encode_toList, ← hdata]

theorem ofOctets?_octets (s : String) : ofOctets? (octets s) = some s := by
  have hvalid : (⟨(octets s).toArray⟩ : ByteArray).IsValidUTF8 := by
    rw [← toByteArray_eq_octets]
    exact s.isValidUTF8
  have hbytes : (String.fromUTF8 _ hvalid).toByteArray = s.toByteArray :=
    (toByteArray_eq_octets s).symm
  rw [ofOctets?, String.fromUTF8?, dif_pos hvalid, String.toByteArray_inj.mp hbytes]

theorem octets_of_ofOctets? {bs : Octets} {s : String} (h : ofOctets? bs = some s) :
    octets s = bs := by
  unfold ofOctets? String.fromUTF8? at h
  split at h
  · have hs := Option.some.inj h
    have hbytes : s.toByteArray = ⟨bs.toArray⟩ := by
      rw [← hs]
      rfl
    rw [toByteArray_eq_octets] at hbytes
    have harray := congrArg ByteArray.data hbytes
    exact (Array.mk.inj harray)
  · cases h

end AuditRelay.Text
