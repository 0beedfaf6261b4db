import AuditRelay.Text.Digits
import Mathlib.Data.String.Basic

/-!
# AuditRelay.Proofs.Text.Digits — decimal digits, their values and their order

The digits of a number are read back as the number, whatever zeros are put in front
(`digits?_padded`), and digit sequences of one length stand in the order of their values
(`lt_of_value_lt`, `padded_lt_padded`).
-/

namespace AuditRelay.Text

theorem isDigit_bounds {c : Char} (h : c.isDigit = true) : 48 ≤ c.toNat ∧ c.toNat ≤ 57 := by
  simp only [Char.isDigit, Bool.and_eq_true, decide_eq_true_eq] at h
  exact ⟨UInt32.le_iff_toNat_le.mp h.1, UInt32.le_iff_toNat_le.mp h.2⟩

theorem isDigit_of_mem_toDigits {n : Nat} {c : Char} (h : c ∈ Nat.toDigits 10 n) :
    c.isDigit = true :=
  Nat.isDigit_of_mem_toDigits (by decide) (by decide) h

/-- The value that `digits?` gives, in terms of the library's. -/
theorem digits?_eq {cs : List Char} (hne : cs ≠ []) (hd : ∀ c ∈ cs, c.isDigit = true) :
    digits? cs = some (Nat.ofDigitChars 10 cs 0) := by
  have key : ∀ (cs : List Char) (n : Nat),
      cs.foldl (fun n c => n * 10 + (c.toNat - 48)) n = Nat.ofDigitChars 10 cs n := by
    intro cs
    induction cs with
    | nil =>
      intro n
      rw [Nat.ofDigitChars_nil, List.foldl_nil]
    | cons c cs ih =>
      intro n
      rw [List.foldl_cons, ih, Nat.ofDigitChars_cons, Nat.mul_comm]
      rfl
  cases cs with
  | nil => exact absurd rfl hne
  | cons c cs =>
    have hall : (c :: cs).all Char.isDigit = true := List.all_eq_true.mpr hd
    rw [digits?, if_pos hall, key]

/-! ## Digits with zeros in front -/

theorem isDigit_of_mem_padded {width n : Nat} {c : Char} (h : c ∈ padded width n) :
    c.isDigit = true := by
  rcases List.mem_append.mp h with h | h
  · rw [List.eq_of_mem_replicate h]
    rfl
  · exact isDigit_of_mem_toDigits h

theorem padded_ne_nil (width n : Nat) : padded width n ≠ [] := by
  intro h
  exact Nat.toDigits_ne_nil (List.append_eq_nil_iff.mp h).2

theorem length_padded {width n : Nat} (hw : 0 < width) (h : n < 10 ^ width) :
    (padded width n).length = width := by
  have hl : (Nat.toDigits 10 n).length ≤ width :=
    (Nat.length_toDigits_le_iff (by decide) hw).mpr h
  simp only [padded, List.length_append, List.length_replicate]
  omega

theorem ofDigitChars_padded (width n : Nat) : Nat.ofDigitChars 10 (padded width n) 0 = n := by
  rw [padded, Nat.ofDigitChars_append, Nat.ofDigitChars_replicate_zero, Nat.mul_zero,
    Nat.ofDigitChars_ten_toDigits]

theorem digits?_padded (width n : Nat) : digits? (padded width n) = some n := by
  rw [digits?_eq (padded_ne_nil width n) fun c hc => isDigit_of_mem_padded hc,
    ofDigitChars_padded]

theorem unsigned?_padded {width n limit : Nat} (h : n ≤ limit) :
    unsigned? limit (padded width n) = some n := by
  have hplus : ∀ cs, padded width n = '+' :: cs → False := by
    intro cs hcs
    have hd : '+'.isDigit = true :=
      isDigit_of_mem_padded (hcs ▸ List.mem_cons_self : '+' ∈ padded width n)
    exact absurd hd (by decide)
  simp only [unsigned?, digits?_padded, if_pos h]

/-! ## Order -/

theorem ofDigitChars_lt_pow {cs : List Char} (hd : ∀ c ∈ cs, c.isDigit = true) :
    Nat.ofDigitChars 10 cs 0 < 10 ^ cs.length := by
  induction cs with
  | nil => decide
  | cons c cs ih =>
    have hc := isDigit_bounds (hd c List.mem_cons_self)
    have htail := ih fun c hc => hd c (List.mem_cons_of_mem _ hc)
    have hdigit : 10 * 0 + (c.toNat - '0'.toNat) ≤ 9 := by
      have h0 : '0'.toNat = 48 := rfl
      omega
    have hmul : 10 ^ cs.length * (10 * 0 + (c.toNat - '0'.toNat)) ≤ 10 ^ cs.length * 9 :=
      Nat.mul_le_mul_left _ hdigit
    rw [Nat.ofDigitChars_cons, Nat.ofDigitChars_eq_ofDigitChars_zero, List.length_cons, pow_succ]
    omega

/-- Of two digit sequences of one length the one with the smaller value comes first. -/
theorem lt_of_value_lt {as bs : List Char} (hl : as.length = bs.length)
    (ha : ∀ c ∈ as, c.isDigit = true) (hb : ∀ c ∈ bs, c.isDigit = true)
    (h : Nat.ofDigitChars 10 as 0 < Nat.ofDigitChars 10 bs 0) : as < bs := by
  induction as generalizing bs with
  | nil =>
    cases bs with
    | nil => exact absurd h (lt_irrefl _)
    | cons b bs => exact absurd hl (by simp)
  | cons a as ih =>
    cases bs with
    | nil => exact absurd hl (by simp)
    | cons b bs =>
      have hl' : as.length = bs.length := by simpa using hl
      have ha' : ∀ c ∈ as, c.isDigit = true := fun c hc => ha c (List.mem_cons_of_mem _ hc)
      have hb' : ∀ c ∈ bs, c.isDigit = true := fun c hc => hb c (List.mem_cons_of_mem _ hc)
      have hab := isDigit_bounds (ha a List.mem_cons_self)
      have hbb := isDigit_bounds (hb b List.mem_cons_self)
      have hlt := ofDigitChars_lt_pow ha'
      have hltb := ofDigitChars_lt_pow hb'
      rw [Nat.ofDigitChars_cons, Nat.ofDigitChars_cons, Nat.ofDigitChars_eq_ofDigitChars_zero,
        Nat.ofDigitChars_eq_ofDigitChars_zero (l := bs), hl'] at h
      have h0 : '0'.toNat = 48 := rfl
      rw [hl'] at hlt
      rw [List.cons_lt_cons_iff]
      rcases Nat.lt_trichotomy a.toNat b.toNat with hc | hc | hc
      · exact .inl hc
      · -- the first digits agree, so the others decide
        have heq : a = b := Char.toNat_inj.mp hc
        subst heq
        exact .inr ⟨rfl, ih hl' ha' hb' (by omega)⟩
      · -- a greater first digit outweighs all others
        have hmul : 10 ^ bs.length * (10 * 0 + (b.toNat - '0'.toNat) + 1) ≤
            10 ^ bs.length * (10 * 0 + (a.toNat - '0'.toNat)) :=
          Nat.mul_le_mul_left _ (by omega)
        rw [Nat.mul_succ] at hmul
        omega

theorem padded_lt_padded {width n m : Nat} (hw : 0 < width) (h : n < m) (hm : m < 10 ^ width) :
    padded width n < padded width m := by
  refine lt_of_value_lt ?_ (fun c hc => isDigit_of_mem_padded hc)
    (fun c hc => isDigit_of_mem_padded hc) ?_
  · rw [length_padded hw (h.trans hm), length_padded hw hm]
  · rw [ofDigitChars_padded, ofDigitChars_padded]
    exact h

end AuditRelay.Text
