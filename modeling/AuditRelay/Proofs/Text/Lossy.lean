import AuditRelay.Proofs.Text.Utf8

/-!
# AuditRelay.Proofs.Text.Lossy — a text is shown as it stands

The lossy scan puts the octets of every character together again (`LossyScan.foldl_encode`), so the
octets of a text are shown as that text (`lossy_octets`), and no two texts are shown alike.
-/

namespace AuditRelay.Text

namespace LossyScan

variable {n low high bits : Nat}

theorem toNat_ofNat (hn : n < 256) : (UInt8.ofNat n).toNat = n :=
  UInt8.toNat_ofNat_of_lt' hn

/-- The octet that starts a character. -/
theorem step_first {b : UInt8} {o : Owed} (h : startOf b = .owed o) (seen : List Char) :
    step ⟨none, seen⟩ b = ⟨some o, seen⟩ := by
  rw [step]
  simp only
  rw [start, h]

/-- An octet that goes on in a character of which more is owed. -/
theorem step_more (hn : n < 64) (hlow : low ≤ n + 0x80) (hhigh : n + 0x80 ≤ high) (count : Nat)
    (seen : List Char) :
    step ⟨some ⟨count + 2, low, high, bits⟩, seen⟩ (UInt8.ofNat (n + 0x80)) =
      ⟨some ⟨count + 1, 0x80, 0xBF, bits * 64 + n⟩, seen⟩ := by
  have hoctet : (UInt8.ofNat (n + 0x80)).toNat = n + 0x80 := toNat_ofNat (by omega)
  have hmod : (n + 0x80) % 64 = n := by omega
  have hcount : ¬ count + 2 = 1 := by omega
  rw [step]
  simp only [hoctet, hmod]
  rw [if_pos ⟨hlow, hhigh⟩, if_neg hcount]
  rfl

/-- The last octet of a character. -/
theorem step_last (hn : n < 64) (hlow : low ≤ n + 0x80) (hhigh : n + 0x80 ≤ high)
    (seen : List Char) :
    step ⟨some ⟨1, low, high, bits⟩, seen⟩ (UInt8.ofNat (n + 0x80)) =
      ⟨none, Char.ofNat (bits * 64 + n) :: seen⟩ := by
  have hoctet : (UInt8.ofNat (n + 0x80)).toNat = n + 0x80 := toNat_ofNat (by omega)
  have hmod : (n + 0x80) % 64 = n := by omega
  rw [step]
  simp only [hoctet, hmod]
  rw [if_pos ⟨hlow, hhigh⟩, if_pos True.intro]

/-! ### First octets -/

theorem startOf_two (hlow : 0x80 ≤ n) (hhigh : n < 0x800) :
    startOf (UInt8.ofNat (n / 64 % 0x20 + 0xc0)) = .owed ⟨1, 0x80, 0xBF, n / 64⟩ := by
  have hbits : (n / 64 % 0x20 + 0xc0) % 32 = n / 64 := by omega
  rw [startOf, toNat_ofNat (by omega)]
  simp only [hbits]
  rw [if_neg (by omega), if_neg (by omega), if_pos (by omega)]

/-- The first of three octets may narrow the second, so that no surrogate and nothing shorter is
written with three. -/
theorem startOf_three (hlow : 0x800 ≤ n) (hhigh : n < 0x10000) (hvalid : n < 0xD800 ∨ 0xDFFF < n) :
    ∃ low high, startOf (UInt8.ofNat (n / 4096 % 0x10 + 0xe0)) = .owed ⟨2, low, high, n / 4096⟩ ∧
      low ≤ n / 64 % 0x40 + 0x80 ∧ n / 64 % 0x40 + 0x80 ≤ high := by
  have hbits : (n / 4096 % 0x10 + 0xe0) % 16 = n / 4096 := by omega
  rw [startOf, toNat_ofNat (by omega)]
  simp only [hbits]
  rw [if_neg (by omega), if_neg (by omega), if_neg (by omega)]
  by_cases h0 : n / 4096 % 0x10 + 0xe0 = 0xE0
  · rw [if_pos h0]
    exact ⟨0xA0, 0xBF, rfl, by omega, by omega⟩
  · rw [if_neg h0]
    by_cases hd : n / 4096 % 0x10 + 0xe0 = 0xED
    · rw [if_pos hd]
      exact ⟨0x80, 0x9F, rfl, by omega, by omega⟩
    · rw [if_neg hd, if_pos (by omega)]
      exact ⟨0x80, 0xBF, rfl, by omega, by omega⟩

/-- The first of four octets may narrow the second, so that nothing shorter and nothing behind the
last character is written with four. -/
theorem startOf_four (hlow : 0x10000 ≤ n) (hhigh : n < 0x110000) :
    ∃ low high, startOf (UInt8.ofNat (n / 262144 % 0x08 + 0xf0)) =
        .owed ⟨3, low, high, n / 262144⟩ ∧
      low ≤ n / 4096 % 0x40 + 0x80 ∧ n / 4096 % 0x40 + 0x80 ≤ high := by
  have hbits : (n / 262144 % 0x08 + 0xf0) % 8 = n / 262144 := by omega
  rw [startOf, toNat_ofNat (by omega)]
  simp only [hbits]
  rw [if_neg (by omega), if_neg (by omega), if_neg (by omega), if_neg (by omega),
    if_neg (by omega), if_neg (by omega)]
  by_cases h0 : n / 262144 % 0x08 + 0xf0 = 0xF0
  · rw [if_pos h0]
    exact ⟨0x90, 0xBF, rfl, by omega, by omega⟩
  · rw [if_neg h0]
    by_cases h4 : n / 262144 % 0x08 + 0xf0 < 0xF4
    · rw [if_pos h4]
      exact ⟨0x80, 0xBF, rfl, by omega, by omega⟩
    · rw [if_neg h4, if_pos (by omega)]
      exact ⟨0x80, 0x8F, rfl, by omega, by omega⟩

/-! ### Whole characters -/

/-- The octets of a character are put together to that character. -/
theorem foldl_encode (c : Char) (seen : List Char) :
    (String.utf8EncodeChar c).foldl step ⟨none, seen⟩ = ⟨none, c :: seen⟩ := by
  have hvalid : c.toNat < 0xD800 ∨ 0xDFFF < c.toNat ∧ c.toNat < 0x110000 := c.valid
  have hv : c.val.toNat = c.toNat := rfl
  simp only [String.utf8EncodeChar, hv]
  split
  · -- one octet
    have hstart : startOf (UInt8.ofNat c.toNat) = .char c := by
      rw [startOf, toNat_ofNat (by omega), if_pos (by omega), Char.ofNat_toNat]
    rw [List.foldl_cons, List.foldl_nil, step]
    simp only
    rw [start, hstart]
  · split
    · -- two octets
      have hstart := startOf_two (n := c.toNat) (by omega) (by omega)
      have hsum : c.toNat / 64 * 64 + c.toNat % 0x40 = c.toNat := by omega
      rw [List.foldl_cons, step_first hstart, List.foldl_cons, List.foldl_nil,
        step_last (by omega) (by omega) (by omega), hsum, Char.ofNat_toNat]
    · split
      · -- three octets
        obtain ⟨low, high, hstart, hlow, hhigh⟩ :=
          startOf_three (n := c.toNat) (by omega) (by omega) (by omega)
        have hsum : (c.toNat / 4096 * 64 + c.toNat / 64 % 0x40) * 64 + c.toNat % 0x40 =
            c.toNat := by omega
        rw [List.foldl_cons, step_first hstart, List.foldl_cons, step_more (by omega) hlow hhigh,
          List.foldl_cons, List.foldl_nil, step_last (by omega) (by omega) (by omega), hsum,
          Char.ofNat_toNat]
      · -- four octets
        obtain ⟨low, high, hstart, hlow, hhigh⟩ :=
          startOf_four (n := c.toNat) (by omega) (by omega)
        have hsum : ((c.toNat / 262144 * 64 + c.toNat / 4096 % 0x40) * 64 +
            c.toNat / 64 % 0x40) * 64 + c.toNat % 0x40 = c.toNat := by omega
        rw [List.foldl_cons, step_first hstart, List.foldl_cons, step_more (by omega) hlow hhigh,
          List.foldl_cons, step_more (by omega) (by omega) (by omega), List.foldl_cons,
          List.foldl_nil, step_last (by omega) (by omega) (by omega), hsum, Char.ofNat_toNat]

theorem foldl_flatMap_encode (cs seen : List Char) :
    (cs.flatMap String.utf8EncodeChar).foldl step ⟨none, seen⟩ = ⟨none, cs.reverse ++ seen⟩ := by
  induction cs generalizing seen with
  | nil => rfl
  | cons c cs ih =>
    rw [List.flatMap_cons, List.foldl_append, foldl_encode, ih, List.reverse_cons,
      List.append_assoc, List.singleton_append]

end LossyScan

theorem lossy_octets (s : String) : lossy (octets s) = s := by
  rw [lossy, octets, LossyScan.foldl_flatMap_encode, List.append_nil, LossyScan.finish]
  simp only
  rw [List.reverse_reverse, String.ofList_toList]

end AuditRelay.Text
