import AuditRelay.Json.Printer
import AuditRelay.Json.Scan
import AuditRelay.Proofs.Text.Utf8

/-!
# AuditRelay.Proofs.Json.Strings — a written string is read back

Every character is read from what `Json.escaped` makes of it: a short escape, an escape by number,
or its own octets (`stringOctets_escaped`). So a written string is read as itself, and what follows
it is left (`string_written`).
-/

namespace AuditRelay

namespace Scan

/-- An octet that stands for itself. -/
theorem stringOctets_plain {b : UInt8} (hquote : b ≠ octet '"') (hslash : b ≠ octet '\\')
    (hplain : 0x20 ≤ b) (acc rest : Octets) :
    stringOctets acc (b :: rest) = stringOctets (b :: acc) rest := by
  have hcontrol : ¬ b < 0x20 := by
    rw [UInt8.lt_iff_toNat_lt]
    rw [UInt8.le_iff_toNat_le] at hplain
    omega
  conv_lhs => unfold stringOctets
  rw [if_neg hquote, if_neg hslash, if_neg hcontrol]

theorem stringOctets_append_plain {bs : Octets}
    (h : ∀ b ∈ bs, b ≠ octet '"' ∧ b ≠ octet '\\' ∧ 0x20 ≤ b) (acc rest : Octets) :
    stringOctets acc (bs ++ rest) = stringOctets (bs.reverse ++ acc) rest := by
  induction bs generalizing acc with
  | nil => rfl
  | cons b bs ih =>
    obtain ⟨hquote, hslash, hplain⟩ := h b List.mem_cons_self
    have hrest : ∀ b ∈ bs, b ≠ octet '"' ∧ b ≠ octet '\\' ∧ 0x20 ≤ b := by
      intro b hb
      exact h b (List.mem_cons_of_mem _ hb)
    rw [List.cons_append, stringOctets_plain hquote hslash hplain, ih hrest, List.reverse_cons,
      List.append_assoc, List.singleton_append]

/-- A character that is neither a control nor has an escape is read from its octets. -/
theorem stringOctets_encode {c : Char} (hquote : c ≠ '"') (hslash : c ≠ '\\')
    (hplain : 0x20 ≤ c.toNat) (acc rest : Octets) :
    stringOctets acc (String.utf8EncodeChar c ++ rest) =
      stringOctets ((String.utf8EncodeChar c).reverse ++ acc) rest := by
  refine stringOctets_append_plain ?_ acc rest
  intro b hb
  refine ⟨?_, ?_, Text.space_le_of_mem_encode hplain b hb⟩
  · -- the octet of an ASCII character is no part of another one
    rintro rfl
    rcases Nat.lt_or_ge c.toNat 0x80 with hc | hc
    · rw [Text.encode_ascii hc, List.mem_singleton] at hb
      have hnat := congrArg UInt8.toNat hb
      rw [Text.toNat_toUInt8 hc] at hnat
      exact hquote (Char.toNat_inj.mp hnat.symm)
    · exact absurd (Text.le_of_mem_encode hc _ hb) (by decide)
  · rintro rfl
    rcases Nat.lt_or_ge c.toNat 0x80 with hc | hc
    · rw [Text.encode_ascii hc, List.mem_singleton] at hb
      have hnat := congrArg UInt8.toNat hb
      rw [Text.toNat_toUInt8 hc] at hnat
      exact hslash (Char.toNat_inj.mp hnat.symm)
    · exact absurd (Text.le_of_mem_encode hc _ hb) (by decide)

/-- A control character is read from its number. -/
theorem stringOctets_number {n : Nat} (h : n < 0x20) (acc rest : Octets) :
    stringOctets acc (Text.octets "\\u00" ++
        [(Text.hexDigit (n / 16)).toUInt8, (Text.hexDigit (n % 16)).toUInt8] ++ rest) =
      stringOctets (reversedOctets n ++ acc) rest := by
  have hhex : ∀ n < 0x20, fourHex? (octet '0') (octet '0') (Text.hexDigit (n / 16)).toUInt8
      (Text.hexDigit (n % 16)).toUInt8 = some n := by decide
  have htrail : isTrailSurrogate n = false := by
    simp only [isTrailSurrogate, Bool.and_eq_false_iff, decide_eq_false_iff_not]
    omega
  have hlead : isLeadSurrogate n = false := by
    simp only [isLeadSurrogate, Bool.and_eq_false_iff, decide_eq_false_iff_not]
    omega
  have hoctets : Text.octets "\\u00" = [octet '\\', octet 'u', octet '0', octet '0'] := by decide
  rw [hoctets]
  simp only [List.cons_append, List.nil_append]
  conv_lhs => unfold stringOctets
  rw [if_neg (by decide), if_pos rfl]
  simp only [if_true, hhex n h, htrail, hlead, Bool.false_eq_true, if_false]

/-- A character with an escape of one letter is read from it. -/
theorem stringOctets_short {text : String} {e x : UInt8} {c : Char}
    (ht : Text.octets text = [octet '\\', e]) (he : e ≠ octet 'u')
    (hx : shortEscape? e = some x) (hc : String.utf8EncodeChar c = [x]) (acc rest : Octets) :
    stringOctets acc (Text.octets text ++ rest) =
      stringOctets ((String.utf8EncodeChar c).reverse ++ acc) rest := by
  rw [ht, hc]
  simp only [List.cons_append, List.nil_append, List.reverse_cons, List.reverse_nil]
  conv_lhs => unfold stringOctets
  rw [if_neg (by decide), if_pos rfl]
  simp only [if_neg he, hx]

/-- A character is read from what is written for it. -/
theorem stringOctets_escaped (c : Char) (acc rest : Octets) :
    stringOctets acc (Json.escaped c ++ rest) =
      stringOctets ((String.utf8EncodeChar c).reverse ++ acc) rest := by
  have hshort : ∀ (text : String) (e x : UInt8), Text.octets text = [octet '\\', e] →
      e ≠ octet 'u' → shortEscape? e = some x → String.utf8EncodeChar c = [x] →
        stringOctets acc (Text.octets text ++ rest) =
          stringOctets ((String.utf8EncodeChar c).reverse ++ acc) rest :=
    fun _ _ _ ht he hx hc => stringOctets_short ht he hx hc acc rest
  unfold Json.escaped
  by_cases hquote : c = '"'
  · subst hquote
    exact hshort _ 34 34 (by decide) (by decide) (by decide) (by decide)
  by_cases hslash : c = '\\'
  · subst hslash
    exact hshort _ 92 92 (by decide) (by decide) (by decide) (by decide)
  rw [if_neg hquote, if_neg hslash]
  split
  · rename_i hc
    subst hc
    exact hshort _ 98 8 (by decide) (by decide) (by decide) (by decide)
  split
  · rename_i hc
    subst hc
    exact hshort _ 102 12 (by decide) (by decide) (by decide) (by decide)
  split
  · rename_i hc
    subst hc
    exact hshort _ 110 10 (by decide) (by decide) (by decide) (by decide)
  split
  · rename_i hc
    subst hc
    exact hshort _ 114 13 (by decide) (by decide) (by decide) (by decide)
  split
  · rename_i hc
    subst hc
    exact hshort _ 116 9 (by decide) (by decide) (by decide) (by decide)
  split
  · -- any other control character is written by its number
    rename_i hcontrol
    rw [stringOctets_number hcontrol, reversedOctets, Char.ofNat_toNat]
  · rename_i hplain
    exact stringOctets_encode hquote hslash (Nat.not_lt.mp hplain) acc rest

theorem stringOctets_written (cs : List Char) (acc rest : Octets) :
    stringOctets acc (cs.flatMap Json.escaped ++ octet '"' :: rest) =
      .ok (acc.reverse ++ cs.flatMap String.utf8EncodeChar, rest) := by
  induction cs generalizing acc with
  | nil =>
    rw [List.flatMap_nil, List.flatMap_nil, List.append_nil, List.nil_append]
    unfold stringOctets
    rw [if_pos rfl]
  | cons c cs ih =>
    rw [List.flatMap_cons, List.flatMap_cons, List.append_assoc, stringOctets_escaped, ih,
      List.reverse_append, List.reverse_reverse, List.append_assoc]

/-- A written string is read from behind its opening quote. -/
theorem string_written (s : String) (rest : Octets) :
    string (s.toList.flatMap Json.escaped ++ octet '"' :: rest) = .ok (s, rest) := by
  have hs : Text.ofOctets? (s.toList.flatMap String.utf8EncodeChar) = some s :=
    Text.ofOctets?_octets s
  unfold string
  rw [stringOctets_written, List.reverse_nil, List.nil_append]
  simp only [hs]

end Scan

end AuditRelay
