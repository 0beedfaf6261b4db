import AuditRelay.Event.Text
import AuditRelay.Proofs.Text.Digits
import AuditRelay.Proofs.Text.Lossy

/-!
# AuditRelay.Proofs.Json.Printed — what a written value looks like

A written value is the octets of a text without controls (`Json.isPlain_written`): it is one line
whatever its strings are, and it can be shown as it stands. An event is therefore a line of its own,
and not a blank one.
-/

namespace AuditRelay

namespace Text

/-- The octets of a text without controls. -/
def IsPlain (bs : Octets) : Prop :=
  ∃ s, octets s = bs ∧ ∀ c ∈ s.toList, 0x20 ≤ c.toNat

theorem isPlain_octets {s : String} (h : ∀ c ∈ s.toList, 0x20 ≤ c.toNat) : IsPlain (octets s) :=
  ⟨s, rfl, h⟩

/-- For a text that is written out. -/
theorem isPlain_of_all {s : String} (h : (s.toList.all fun c => 0x20 ≤ c.toNat) = true) :
    IsPlain (octets s) := by
  refine isPlain_octets fun c hc => ?_
  have hall := List.all_eq_true.mp h c hc
  exact of_decide_eq_true hall

theorem isPlain_nil : IsPlain [] := isPlain_of_all (s := "") (by decide)

theorem IsPlain.append {xs ys : Octets} (hx : IsPlain xs) (hy : IsPlain ys) :
    IsPlain (xs ++ ys) := by
  obtain ⟨s, rfl, hs⟩ := hx
  obtain ⟨t, rfl, ht⟩ := hy
  refine ⟨s ++ t, octets_append s t, ?_⟩
  intro c hc
  rw [String.toList_append] at hc
  rcases List.mem_append.mp hc with hc | hc
  · exact hs c hc
  · exact ht c hc

theorem isPlain_encode {c : Char} (h : 0x20 ≤ c.toNat) : IsPlain (String.utf8EncodeChar c) := by
  refine ⟨String.ofList [c], ?_, ?_⟩
  · rw [octets_ofList, List.flatMap_singleton]
  · intro d hd
    rw [String.toList_ofList, List.mem_singleton] at hd
    rw [hd]
    exact h

theorem IsPlain.cons {c : Char} {bs : Octets} (hc : 0x20 ≤ c.toNat ∧ c.toNat < 0x80)
    (h : IsPlain bs) : IsPlain (c.toUInt8 :: bs) := by
  have hone := isPlain_encode hc.1
  rw [encode_ascii hc.2] at hone
  exact hone.append h

theorem IsPlain.enclosed {c d : Char} {bs : Octets} (h : IsPlain bs)
    (hc : 0x20 ≤ c.toNat ∧ c.toNat < 0x80) (hd : 0x20 ≤ d.toNat ∧ d.toNat < 0x80) :
    IsPlain (c.toUInt8 :: (bs ++ [d.toUInt8])) :=
  .cons hc (h.append (.cons hd isPlain_nil))

theorem IsPlain.flatMap {α : Type} {f : α → Octets} {xs : List α} (h : ∀ x ∈ xs, IsPlain (f x)) :
    IsPlain (xs.flatMap f) := by
  induction xs with
  | nil => exact isPlain_nil
  | cons x xs ih =>
    rw [List.flatMap_cons]
    exact (h x List.mem_cons_self).append (ih fun y hy => h y (List.mem_cons_of_mem _ hy))

/-- No octet is a control either. -/
theorem IsPlain.space_le {bs : Octets} (h : IsPlain bs) : ∀ b ∈ bs, 0x20 ≤ b := by
  obtain ⟨s, rfl, hs⟩ := h
  intro b hb
  obtain ⟨c, hc, hb⟩ := List.mem_flatMap.mp hb
  exact space_le_of_mem_encode (hs c hc) b hb

/-- They are shown as that text, so no two of them are shown alike. -/
theorem IsPlain.eq_of_lossy {xs ys : Octets} (hx : IsPlain xs) (hy : IsPlain ys)
    (h : lossy xs = lossy ys) : xs = ys := by
  obtain ⟨s, rfl, -⟩ := hx
  obtain ⟨t, rfl, -⟩ := hy
  rw [lossy_octets, lossy_octets] at h
  rw [h]

theorem space_le_of_isDigit {c : Char} (h : c.isDigit = true) : 0x20 ≤ c.toNat := by
  have := (isDigit_bounds h).1
  omega

theorem space_le_of_mem_toString {n : Nat} {c : Char} (h : c ∈ (toString n).toList) :
    0x20 ≤ c.toNat := by
  rw [Nat.toString_eq_repr, Nat.toList_repr] at h
  exact space_le_of_isDigit (isDigit_of_mem_toDigits h)

end Text

/-! ## Doubles -/

namespace Double

theorem space_le_of_mem_place (digits : Nat) (exponent : Int) :
    ∀ c ∈ (place digits exponent).toList, 0x20 ≤ c.toNat := by
  have hdigits : ∀ c ∈ (toString digits).toList, 0x20 ≤ c.toNat :=
    fun c hc => Text.space_le_of_mem_toString hc
  have hzeros : ∀ n, ∀ c ∈ List.replicate n '0', 0x20 ≤ c.toNat := by
    intro n c hc
    rw [List.eq_of_mem_replicate hc]
    decide
  have htake : ∀ n, ∀ c ∈ (toString digits).toList.take n, 0x20 ≤ c.toNat :=
    fun n c hc => hdigits c (List.mem_of_mem_take hc)
  have hdrop : ∀ n, ∀ c ∈ (toString digits).toList.drop n, 0x20 ≤ c.toNat :=
    fun n c hc => hdigits c (List.mem_of_mem_drop hc)
  simp only [place]
  split
  · -- the point behind all digits
    intro c hc
    simp only [String.toList_ofList, List.mem_append, List.mem_cons, List.not_mem_nil,
      or_false] at hc
    rcases hc with (hc | hc) | rfl | rfl
    · exact hdigits c hc
    · exact hzeros _ c hc
    · decide
    · decide
  · split
    · -- the point between the digits
      intro c hc
      simp only [String.toList_ofList, List.mem_append, List.mem_cons] at hc
      rcases hc with hc | rfl | hc
      · exact htake _ c hc
      · decide
      · exact hdrop _ c hc
    · split
      · -- the point before all digits
        intro c hc
        simp only [String.toList_ofList, List.cons_append, List.mem_append, List.mem_cons] at hc
        rcases hc with rfl | rfl | hc | hc
        · decide
        · decide
        · exact hzeros _ c hc
        · exact hdigits c hc
      · -- an exponent
        intro c hc
        simp only [String.toList_ofList, List.mem_append, List.mem_cons] at hc
        rcases hc with (hc | hc) | rfl | rfl | hc
        · exact htake _ c hc
        · split at hc
          · cases hc
          · rcases List.mem_cons.mp hc with rfl | hc
            · decide
            · exact hdrop _ c hc
        · decide
        · split <;> decide
        · exact Text.space_le_of_mem_toString hc

theorem space_le_of_mem_text (d : Double) : ∀ c ∈ d.text.toList, 0x20 ≤ c.toNat := by
  simp only [text]
  split
  · intro c hc
    rw [String.toList_append, List.mem_append] at hc
    rcases hc with hc | hc
    · have hminus : c = '-' := List.mem_singleton.mp hc
      rw [hminus]
      decide
    · exact space_le_of_mem_place _ _ c hc
  · exact space_le_of_mem_place _ _

end Double

/-! ## Values -/

namespace Json

theorem isPlain_escaped (c : Char) : Text.IsPlain (escaped c) := by
  have hhex : ∀ n, n < 16 →
      0x20 ≤ (Text.hexDigit n).toNat ∧ (Text.hexDigit n).toNat < 0x80 := by decide
  simp only [escaped]
  split
  · exact Text.isPlain_of_all (by decide)
  · split
    · exact Text.isPlain_of_all (by decide)
    · split
      · exact Text.isPlain_of_all (by decide)
      · split
        · exact Text.isPlain_of_all (by decide)
        · split
          · exact Text.isPlain_of_all (by decide)
          · split
            · exact Text.isPlain_of_all (by decide)
            · split
              · exact Text.isPlain_of_all (by decide)
              · split
                · -- any other control is written by its number
                  rename_i hc
                  refine (Text.isPlain_of_all (by decide)).append ?_
                  refine Text.IsPlain.cons (hhex _ (by omega)) ?_
                  exact Text.IsPlain.cons (hhex _ (by omega)) Text.isPlain_nil
                · rename_i hc
                  exact Text.isPlain_encode (Nat.not_lt.mp hc)

theorem isPlain_writtenString (s : String) : Text.IsPlain (writtenString s) := by
  have hchars : Text.IsPlain (s.toList.flatMap escaped) := .flatMap fun c _ => isPlain_escaped c
  exact hchars.enclosed (by decide) (by decide)

theorem isPlain_writtenNumber (n : Number) : Text.IsPlain (writtenNumber n) := by
  cases n with
  | int n =>
    have hdigits : ∀ n : Nat, Text.IsPlain (Text.octets (toString n)) :=
      fun n => Text.isPlain_octets fun c hc => Text.space_le_of_mem_toString hc
    rw [writtenNumber]
    cases n with
    | ofNat n => exact hdigits n
    | negSucc n =>
      rw [Text.octets_toString_negSucc]
      exact .cons (by decide) (hdigits (n + 1))
  | real d => exact Text.isPlain_octets d.space_le_of_mem_text

mutual

theorem isPlain_written : (v : Json) → Text.IsPlain v.written
  | .null | .bool true | .bool false => by
    rw [written]
    exact Text.isPlain_of_all (by decide)
  | .number n => by
    rw [written]
    exact isPlain_writtenNumber n
  | .string s => by
    rw [written]
    exact isPlain_writtenString s
  | .array items => by
    rw [written]
    exact (isPlain_writtenItems items).enclosed (by decide) (by decide)
  | .object ms => by
    rw [written]
    exact (isPlain_writtenMembers ms).enclosed (by decide) (by decide)

theorem isPlain_writtenItems : (vs : List Json) → Text.IsPlain (writtenItems vs)
  | [] => by
    rw [writtenItems]
    exact Text.isPlain_nil
  | [v] => by
    rw [writtenItems]
    exact isPlain_written v
  | v :: w :: vs => by
    rw [writtenItems]
    exact (isPlain_written v).append (.cons (by decide) (isPlain_writtenItems (w :: vs)))

theorem isPlain_writtenMembers : (ms : List (String × Json)) → Text.IsPlain (writtenMembers ms)
  | [] => by
    rw [writtenMembers]
    exact Text.isPlain_nil
  | [(k, v)] => by
    rw [writtenMembers]
    exact (isPlain_writtenString k).append (.cons (by decide) (isPlain_written v))
  | (k, v) :: m :: ms => by
    rw [writtenMembers]
    refine (isPlain_writtenString k).append (.cons (by decide) ?_)
    exact (isPlain_written v).append (.cons (by decide) (isPlain_writtenMembers (m :: ms)))

end

end Json

/-! ## Events -/

namespace Event

theorem isPlain_written (e : Event) : Text.IsPlain e.written :=
  (Json.isPlain_writtenMembers _).enclosed (by decide) (by decide)

/-- An event is written on one line. -/
theorem feed_not_mem_written (e : Event) : (10 : UInt8) ∉ e.written := by
  intro h
  exact absurd (e.isPlain_written.space_le 10 h) (by decide)

end Event

end AuditRelay
