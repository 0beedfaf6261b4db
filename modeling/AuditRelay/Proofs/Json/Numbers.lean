import AuditRelay.Json.Printer
import AuditRelay.Json.Scan
import AuditRelay.Proofs.Text.Digits
import AuditRelay.Proofs.Text.Utf8

/-!
# AuditRelay.Proofs.Json.Numbers — a written whole number is read back

The digits of a number of 64 bits all fit into the significand (`digits_written`), so a whole number
is read as itself when neither a digit nor a point nor an exponent follows it (`number_written`,
`number_written_neg`).
-/

namespace AuditRelay

/-- A whole number of 64 bits, with or without a sign. -/
def Number.IsWhole : Number → Prop
  | .int (.ofNat n) => n < 2 ^ 64
  | .int (.negSucc n) => n < 2 ^ 63
  | .real _ => False

namespace Text

/-- A number is written with its digits, one octet for each. -/
theorem octets_toString (n : Nat) : octets (toString n) = (Nat.toDigits 10 n).map Char.toUInt8 := by
  have hs : toString n = String.ofList (Nat.toDigits 10 n) := by
    rw [Nat.toString_eq_repr]
    rfl
  rw [hs]
  refine octets_ascii fun c hc => ?_
  have hbounds := isDigit_bounds (isDigit_of_mem_toDigits hc)
  omega

/-- No number but zero begins with a zero. -/
theorem ne_zero_of_toDigits {n : Nat} (hn : 0 < n) {c : Char} {cs : List Char}
    (h : Nat.toDigits 10 n = c :: cs) : c ≠ '0' := by
  rintro rfl
  have hvalue : Nat.ofDigitChars 10 ('0' :: cs) 0 = n := by
    rw [← h, Nat.ofDigitChars_ten_toDigits]
  have hdigits : ∀ c ∈ cs, c.isDigit = true := by
    intro c hc
    exact isDigit_of_mem_toDigits (h ▸ List.mem_cons_of_mem _ hc : c ∈ Nat.toDigits 10 n)
  have hlt : n < 10 ^ cs.length := by
    rw [← hvalue, Nat.ofDigitChars_cons]
    exact ofDigitChars_lt_pow hdigits
  -- then fewer digits would do
  cases cs with
  | nil =>
    rw [List.length_nil, pow_zero] at hlt
    omega
  | cons d ds =>
    have hlen := (Nat.length_toDigits_le_iff (by decide) (Nat.succ_pos _)).mpr hlt
    simp only [h, List.length_cons] at hlen
    omega

theorem le_ofDigitChars (cs : List Char) (n : Nat) : n ≤ Nat.ofDigitChars 10 cs n := by
  induction cs generalizing n with
  | nil =>
    rw [Nat.ofDigitChars_nil]
  | cons c cs ih =>
    rw [Nat.ofDigitChars_cons]
    have hle := ih (10 * n + (c.toNat - '0'.toNat))
    omega

end Text

namespace Scan

/-- What may follow a value: nothing, or the end of an element, a list or an object. -/
def Closes (rest : Octets) : Prop :=
  ∀ b ∈ rest.head?, b = octet ',' ∨ b = octet ']' ∨ b = octet '\x7d'

theorem Closes.startsWithDigit {rest : Octets} (h : Closes rest) :
    startsWithDigit rest = false := by
  cases rest with
  | nil => rfl
  | cons b r => rcases h b rfl with rfl | rfl | rfl <;> rfl

theorem isDigit_toUInt8 {c : Char} (h : c.isDigit = true) :
    isDigit c.toUInt8 = true ∧ digitValue c.toUInt8 = c.toNat - 48 := by
  obtain ⟨hlo, hhi⟩ := Text.isDigit_bounds h
  have hnat : c.toUInt8.toNat = c.toNat := Text.toNat_toUInt8 (by omega)
  have h0 : (octet '0').toNat = 48 := rfl
  have h9 : (octet '9').toNat = 57 := rfl
  constructor
  · simp only [isDigit, Bool.and_eq_true, decide_eq_true_eq, UInt8.le_iff_toNat_le]
    omega
  · rw [digitValue, hnat]

/-- All digits of a number that fits are taken. -/
theorem digits_written {ds : List Char} (hd : ∀ c ∈ ds, c.isDigit = true) {n : Nat}
    (hfit : Nat.ofDigitChars 10 ds n < significandLimit) (count : Nat) {rest : Octets}
    (hr : startsWithDigit rest = false) :
    digits n count (ds.map Char.toUInt8 ++ rest) =
      (Nat.ofDigitChars 10 ds n, count + ds.length, rest) := by
  induction ds generalizing n count with
  | nil =>
    rw [List.map_nil, List.nil_append, Nat.ofDigitChars_nil, List.length_nil, Nat.add_zero]
    cases rest with
    | nil => rfl
    | cons b r =>
      have hb : isDigit b = false := hr
      rw [digits, if_neg]
      rw [hb]
      exact fun h => Bool.false_ne_true h.1
  | cons c cs ih =>
    obtain ⟨hdigit, hvalue⟩ := isDigit_toUInt8 (hd c List.mem_cons_self)
    have hnext : n * 10 + digitValue c.toUInt8 = 10 * n + (c.toNat - '0'.toNat) := by
      rw [hvalue, Nat.mul_comm]
      rfl
    rw [Nat.ofDigitChars_cons] at hfit ⊢
    have hle := Text.le_ofDigitChars cs (10 * n + (c.toNat - '0'.toNat))
    rw [List.map_cons, List.cons_append, digits, hnext, if_pos ⟨hdigit, by omega⟩,
      ih (fun c hc => hd c (List.mem_cons_of_mem _ hc)) hfit, List.length_cons]
    congr 2
    omega

/-- Nothing of a number comes after it. -/
theorem afterWhole_closes {rest : Octets} (h : Closes rest) (negative : Bool) (n : Nat) :
    afterWhole negative n rest = .ok (whole negative n, rest) := by
  cases rest with
  | nil => rfl
  | cons b r => rcases h b rfl with rfl | rfl | rfl <;> rfl

/-- The digits of a number are read as the number. -/
theorem number_digits (negative : Bool) {n : Nat} (hn : n < significandLimit) {rest : Octets}
    (h : Closes rest) :
    number negative (Text.octets (toString n) ++ rest) = .ok (whole negative n, rest) := by
  have hdigits : ∀ c ∈ Nat.toDigits 10 n, c.isDigit = true :=
    fun c hc => Text.isDigit_of_mem_toDigits hc
  have hvalue := Nat.ofDigitChars_ten_toDigits (n := n)
  rw [Text.octets_toString]
  rcases Nat.eq_zero_or_pos n with rfl | hpos
  · -- zero is one digit, which no other may follow
    show number negative (octet '0' :: rest) = _
    rw [number, if_pos rfl, h.startsWithDigit, if_neg Bool.false_ne_true,
      afterWhole_closes h]
  · cases hds : Nat.toDigits 10 n with
    | nil => exact absurd hds Nat.toDigits_ne_nil
    | cons c cs =>
      have hzero := Text.ne_zero_of_toDigits hpos hds
      rw [hds] at hdigits hvalue
      rw [Nat.ofDigitChars_cons] at hvalue
      have hc := hdigits c List.mem_cons_self
      obtain ⟨hdigit, hfirst⟩ := isDigit_toUInt8 hc
      have hne : c.toUInt8 ≠ octet '0' := by
        intro heq
        have hnat := congrArg UInt8.toNat heq
        have hbounds := Text.isDigit_bounds hc
        rw [Text.toNat_toUInt8 (by omega)] at hnat
        exact hzero (Char.toNat_inj.mp hnat)
      have hstart : 10 * 0 + (c.toNat - '0'.toNat) = digitValue c.toUInt8 := by
        rw [hfirst, Nat.mul_zero, Nat.zero_add]
        rfl
      rw [hstart] at hvalue
      have hread := digits_written (fun c hc => hdigits c (List.mem_cons_of_mem _ hc))
        (by rw [hvalue]; exact hn) 1 h.startsWithDigit
      rw [List.map_cons, List.cons_append, number, if_neg hne, if_pos hdigit, hread, hvalue]
      simp only [h.startsWithDigit, Bool.false_eq_true, if_false]
      exact afterWhole_closes h negative n

/-- A number that is not negative is read from its first digit on. -/
theorem number_written {n : Nat} (hn : n < 2 ^ 64) {rest : Octets} (h : Closes rest) :
    number false (Text.octets (toString n) ++ rest) = .ok (.int n, rest) :=
  number_digits false hn h

/-- A negative number is read from behind its sign. -/
theorem number_written_neg {n : Nat} (hpos : 0 < n) (hn : n ≤ 2 ^ 63) {rest : Octets}
    (h : Closes rest) :
    number true (Text.octets (toString n) ++ rest) = .ok (.int (-n), rest) := by
  have hlimit : n < significandLimit := by
    have hpow : significandLimit = 2 ^ 64 := rfl
    rw [hpow]
    omega
  have hwhole : whole true n = .int (-n) := by
    simp only [whole, Bool.not_true, Bool.false_eq_true, if_false]
    exact if_pos ⟨hpos, hn⟩
  rw [number_digits true hlimit h, hwhole]

end Scan

end AuditRelay
