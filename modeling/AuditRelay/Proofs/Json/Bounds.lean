import AuditRelay.Json.Embedded
import AuditRelay.Proofs.Named
import AuditRelay.Proofs.Text.Utf8

/-!
# AuditRelay.Proofs.Json.Bounds — what is read is smaller than its text

Every reading leaves fewer octets than it was given, and every string of a value that is read has
fewer octets than the text. So a value cannot be embedded in itself. The members of objects that are
read stand in order (`Json.ofText_bounded`).

The loops over elements and members keep whatever one element or member keeps.
-/

namespace AuditRelay

namespace Json

mutual

/-- The octets of the longest string in the tree, names apart. -/
def longest : Json → Nat
  | .string s => (Text.octets s).length
  | .array items => longestItem items
  | .object members => longestMember members
  | .null | .bool _ | .number _ => 0

def longestItem : List Json → Nat
  | [] => 0
  | v :: vs => max v.longest (longestItem vs)

def longestMember : List (String × Json) → Nat
  | [] => 0
  | (_, v) :: ms => max v.longest (longestMember ms)

end

/-- In order, and all strings have fewer than `n` octets. -/
structure IsBounded (n : Nat) (v : Json) : Prop where
  ordered : v.IsOrdered
  short : v.longest < n

theorem IsBounded.mono {n m : Nat} {v : Json} (h : v.IsBounded n) (hle : n ≤ m) : v.IsBounded m :=
  ⟨h.ordered, Nat.lt_of_lt_of_le h.short hle⟩

theorem isBounded_array {n : Nat} {vs : List Json} (hn : 0 < n) (h : ∀ v ∈ vs, v.IsBounded n) :
    (array vs).IsBounded n := by
  have key : AllOrdered vs ∧ longestItem vs < n := by
    induction vs with
    | nil =>
      unfold AllOrdered longestItem
      exact ⟨trivial, hn⟩
    | cons v vs ih =>
      obtain ⟨hordered, hshort⟩ := h v List.mem_cons_self
      obtain ⟨hitems, hlongest⟩ := ih fun v hv => h v (List.mem_cons_of_mem _ hv)
      unfold AllOrdered longestItem
      exact ⟨⟨hordered, hitems⟩, Nat.max_lt.mpr ⟨hshort, hlongest⟩⟩
  constructor
  · unfold IsOrdered
    exact key.1
  · unfold longest
    exact key.2

theorem isBounded_object {n : Nat} {ms : Members} (hn : 0 < n) (ho : Named.IsOrdered ms)
    (h : ∀ m ∈ ms, m.2.IsBounded n) : (object ms).IsBounded n := by
  have key : MembersOrdered ms ∧ longestMember ms < n := by
    clear ho
    induction ms with
    | nil =>
      unfold MembersOrdered longestMember
      exact ⟨trivial, hn⟩
    | cons m ms ih =>
      obtain ⟨hordered, hshort⟩ := h m List.mem_cons_self
      obtain ⟨hmembers, hlongest⟩ := ih fun m hm => h m (List.mem_cons_of_mem _ hm)
      unfold MembersOrdered longestMember
      exact ⟨⟨hordered, hmembers⟩, Nat.max_lt.mpr ⟨hshort, hlongest⟩⟩
  constructor
  · unfold IsOrdered
    exact ⟨ho, key.1⟩
  · unfold longest
    exact key.2

end Json

namespace Scan

/-! ## Blanks, words and strings -/

theorem length_skipBlanks (bs : Octets) : (skipBlanks bs).length ≤ bs.length := by
  induction bs with
  | nil => exact Nat.le_refl _
  | cons b r ih =>
    unfold skipBlanks
    split
    · exact Nat.le_succ_of_le ih
    · exact Nat.le_refl _

theorem length_of_skipBlanks {bs r : Octets} {b : UInt8} (h : skipBlanks bs = b :: r) :
    r.length < bs.length := by
  have hle := length_skipBlanks bs
  rw [h, List.length_cons] at hle
  exact hle

theorem length_word {cs : List Char} {bs r : Octets} (h : word cs bs = .ok r) :
    r.length ≤ bs.length := by
  induction cs generalizing bs with
  | nil =>
    rw [← Except.ok.inj h]
  | cons c cs ih =>
    cases bs with
    | nil => cases h
    | cons b bs =>
      unfold word at h
      split at h
      · exact Nat.le_succ_of_le (ih h)
      · cases h

theorem length_colon {bs r : Octets} (h : colon bs = .ok r) : r.length < bs.length := by
  unfold colon at h
  split at h
  · cases h
  · rename_i b r' hs
    split at h
    · rw [← Except.ok.inj h]
      exact length_of_skipBlanks hs
    · cases h

theorem length_reversedOctets (n : Nat) : (reversedOctets n).length ≤ 4 := by
  rw [reversedOctets, List.length_reverse, String.length_utf8EncodeChar]
  exact Char.utf8Size_le_four _

/-- A string has fewer octets than what it is read from, without those that are left. -/
theorem length_stringOctets {acc bs octets rest : Octets}
    (h : stringOctets acc bs = .ok (octets, rest)) :
    octets.length + rest.length < acc.length + bs.length := by
  -- an escape is longer than what it stands for
  fun_induction stringOctets acc bs
  case case2 acc r =>
    obtain ⟨rfl, rfl⟩ := Prod.mk.inj (Except.ok.inj h)
    rw [List.length_reverse, List.length_cons]
    omega
  case case11 acc _ _ _ _ n _ _ _ _ _ _ _ _ _ _ _ r m _ _ _ ih =>
    have hlt := ih h
    have hle := length_reversedOctets (pairedSurrogates n m)
    simp only [List.length_append, List.length_cons] at hlt ⊢
    omega
  case case14 acc _ _ _ _ r n _ _ _ _ ih =>
    have hlt := ih h
    have hle := length_reversedOctets n
    simp only [List.length_append, List.length_cons] at hlt ⊢
    omega
  case case16 ih =>
    have hlt := ih h
    simp only [List.length_cons] at hlt ⊢
    omega
  case case19 ih =>
    have hlt := ih h
    simp only [List.length_cons] at hlt ⊢
    omega
  all_goals cases h

theorem length_string {bs rest : Octets} {s : String} (h : string bs = .ok (s, rest)) :
    (Text.octets s).length + rest.length < bs.length := by
  unfold string at h
  split at h
  · cases h
  · rename_i octets rest' hoctets
    have hlt := length_stringOctets hoctets
    split at h
    · rename_i s' hs
      obtain ⟨rfl, rfl⟩ := Prod.mk.inj (Except.ok.inj h)
      rw [Text.octets_of_ofOctets? hs]
      rw [List.length_nil, Nat.zero_add] at hlt
      exact hlt
    · cases h

theorem refuse_ne_ok {α : Type} {expected : String} {bs : Octets} {a : α} :
    refuse expected bs ≠ .ok a := by
  intro h
  unfold refuse at h
  split at h <;> cases h

theorem length_stringValue {expected : String} {bs rest : Octets} {s : String}
    (h : stringValue expected bs = .ok (s, rest)) :
    (Text.octets s).length + rest.length < bs.length := by
  unfold stringValue at h
  split at h
  · cases h
  · rename_i b r hs
    split at h
    · have hlt := length_string h
      have hle := length_of_skipBlanks hs
      omega
    · exact absurd h refuse_ne_ok

/-! ## Numbers -/

theorem length_digits (significand count : Nat) (bs : Octets) :
    (digits significand count bs).2.2.length ≤ bs.length := by
  induction bs generalizing significand count with
  | nil => exact Nat.le_refl _
  | cons b r ih =>
    unfold digits
    split
    · exact Nat.le_succ_of_le (ih _ _)
    · exact Nat.le_refl _

theorem length_skipDigits (count : Nat) (bs : Octets) :
    (skipDigits count bs).2.length ≤ bs.length := by
  induction bs generalizing count with
  | nil => exact Nat.le_refl _
  | cons b r ih =>
    unfold skipDigits
    split
    · exact Nat.le_succ_of_le (ih _)
    · exact Nat.le_refl _

theorem length_exponentDigits {e n : Nat} {bs rest : Octets}
    (h : exponentDigits e bs = some (n, rest)) : rest.length ≤ bs.length := by
  induction bs generalizing e with
  | nil =>
    rw [← (Prod.mk.inj (Option.some.inj h)).2]
  | cons b r ih =>
    unfold exponentDigits at h
    split at h
    · split at h
      · exact Nat.le_succ_of_le (ih h)
      · cases h
    · rw [← (Prod.mk.inj (Option.some.inj h)).2]

theorem length_realOf {negative : Bool} {significand : Nat} {e : Int} {bs rest : Octets}
    {n : Number} (h : realOf negative significand e bs = .ok (n, rest)) :
    rest.length ≤ bs.length := by
  unfold realOf at h
  split at h
  · rw [(Prod.mk.inj (Except.ok.inj h)).2]
  · cases h

theorem length_exponent {negative : Bool} {significand : Nat} {start : Int} {bs rest : Octets}
    {n : Number} (h : exponent negative significand start bs = .ok (n, rest)) :
    rest.length ≤ bs.length := by
  unfold exponent at h
  split at h
  rename_i down digits hsign
  -- the sign, if there is one, has been passed over
  have hle : digits.length ≤ bs.length := by
    split at hsign
    · rw [← (Prod.mk.inj hsign).2]
    · split at hsign
      · rw [← (Prod.mk.inj hsign).2]
        exact Nat.le_succ _
      · split at hsign
        · rw [← (Prod.mk.inj hsign).2]
          exact Nat.le_succ _
        · rw [← (Prod.mk.inj hsign).2]
  split at h
  · cases h
  · rename_i b r
    have hr : r.length < bs.length := hle
    split at h
    · split at h
      · rename_i e rest' he
        have h₁ := length_exponentDigits he
        have h₂ := length_realOf h
        omega
      · -- the exponent is out of range, and its digits are skipped
        split at h
        · cases h
        · have h₁ := length_skipDigits 0 r
          rw [← (Prod.mk.inj (Except.ok.inj h)).2]
          omega
    · cases h

theorem length_fraction {negative : Bool} {significand : Nat} {start : Int} {bs rest : Octets}
    {n : Number} (h : fraction negative significand start bs = .ok (n, rest)) :
    rest.length ≤ bs.length := by
  unfold fraction at h
  have hle := length_digits significand 0 bs
  rcases hdigits : digits significand 0 bs with ⟨significand', count, rest'⟩
  have hskip := length_skipDigits 0 rest'
  have hdrop : ∀ r : Octets, (r.drop 1).length ≤ r.length := fun r => by
    rw [List.length_drop]
    exact Nat.sub_le _ _
  simp only [hdigits] at h hle
  split at h
  · -- further digits do not count any more
    split at h
    · have h₁ := length_exponent h
      have h₂ := hdrop (skipDigits 0 rest').2
      omega
    · have h₁ := length_realOf h
      omega
  · split at h
    · split at h <;> cases h
    · split at h
      · have h₁ := length_exponent h
        have h₂ := hdrop rest'
        omega
      · have h₁ := length_realOf h
        omega

theorem length_afterWhole {negative : Bool} {significand : Nat} {bs rest : Octets} {n : Number}
    (h : afterWhole negative significand bs = .ok (n, rest)) : rest.length ≤ bs.length := by
  unfold afterWhole at h
  split at h
  · rw [← (Prod.mk.inj (Except.ok.inj h)).2]
  · split at h
    · exact Nat.le_succ_of_le (length_fraction h)
    · split at h
      · exact Nat.le_succ_of_le (length_exponent h)
      · rw [← (Prod.mk.inj (Except.ok.inj h)).2]

theorem length_afterDropped {negative : Bool} {significand : Nat} {bs rest : Octets} {n : Number}
    (h : afterDropped negative significand bs = .ok (n, rest)) : rest.length ≤ bs.length := by
  unfold afterDropped at h
  have hle := length_skipDigits 0 bs
  rcases hskip : skipDigits 0 bs with ⟨dropped, bs'⟩
  simp only [hskip] at h hle
  split at h
  · have h₁ := length_realOf h
    exact Nat.le_trans h₁ (Nat.zero_le _)
  · rw [List.length_cons] at hle
    split at h
    · have h₁ := length_fraction h
      omega
    · split at h
      · have h₁ := length_exponent h
        omega
      · have h₁ := length_realOf h
        rw [List.length_cons] at h₁
        omega

/-- A number takes at least one octet. -/
theorem length_number {negative : Bool} {bs rest : Octets} {n : Number}
    (h : number negative bs = .ok (n, rest)) : rest.length < bs.length := by
  unfold number at h
  split at h
  · cases h
  · rename_i b r
    split at h
    · -- no digit may follow a zero
      split at h
      · cases h
      · exact Nat.lt_succ_of_le (length_afterWhole h)
    · split at h
      · have hle := length_digits (digitValue b) 1 r
        rcases hdigits : digits (digitValue b) 1 r with ⟨significand, count, rest'⟩
        simp only [hdigits] at h hle
        rw [List.length_cons]
        split at h
        · have h₁ := length_afterDropped h
          omega
        · have h₁ := length_afterWhole h
          omega
      · cases h

/-! ## The loops -/

/-- What one element keeps and takes, all elements keep and take. `limit` bounds the octets that are
read, for what depends on them. -/
theorem elements_keep {σ : Type} {item : σ → Octets → Reading σ} {Kept : σ → Prop} {limit : Nat}
    (hitem : ∀ {state bs state' rest}, List.length bs ≤ limit → Kept state →
      item state bs = .ok (state', rest) → Kept state' ∧ List.length rest < List.length bs)
    {first : Bool} {state state' : σ} {bs rest : Octets} {n : Nat} (hle : bs.length ≤ limit)
    (hk : Kept state) (h : elements item first state bs n = .ok (state', rest)) :
    Kept state' ∧ rest.length < bs.length := by
  induction n generalizing first state bs with
  | zero => cases h
  | succ n ih =>
    unfold elements at h
    split at h
    · cases h
    · rename_i b r hs
      have hr := length_of_skipBlanks hs
      -- an element that has been read, and the rest of the list
      have hread : ∀ {read : Octets} {state₁ rest₁}, read.length ≤ bs.length →
          item state read = .ok (state₁, rest₁) →
          elements item false state₁ rest₁ n = .ok (state', rest) →
          Kept state' ∧ rest.length < bs.length := by
        intro read state₁ rest₁ hlen he h
        obtain ⟨hk₁, hlt₁⟩ := hitem (Nat.le_trans hlen hle) hk he
        obtain ⟨hk₂, hlt₂⟩ := ih (by omega) hk₁ h
        exact ⟨hk₂, by omega⟩
      have hfull : List.length (b :: r) ≤ bs.length := hr
      split at h
      · -- the closing bracket
        obtain ⟨rfl, rfl⟩ := Prod.mk.inj (Except.ok.inj h)
        exact ⟨hk, hr⟩
      · split at h
        · -- the first one stands without a comma
          split at h
          · cases h
          · rename_i he
            exact hread hfull he h
        · split at h
          · -- a later one behind its comma
            split at h
            · cases h
            · rename_i c r' hs'
              have hr' := length_of_skipBlanks hs'
              have hfull' : List.length (c :: r') ≤ bs.length := by
                rw [List.length_cons]
                omega
              split at h
              · cases h
              · split at h
                · cases h
                · rename_i he
                  exact hread hfull' he h
          · cases h

/-- A member takes its name, and then what its entry takes. -/
theorem member_keep {σ : Type} {entry : σ → String → Octets → Reading σ} {Kept : σ → Prop}
    {limit : Nat}
    (hentry : ∀ {state key bs state' rest}, List.length bs ≤ limit → Kept state →
      entry state key bs = .ok (state', rest) → Kept state' ∧ List.length rest < List.length bs)
    {state state' : σ} {bs rest : Octets} (hle : bs.length ≤ limit) (hk : Kept state)
    (h : member entry state bs = .ok (state', rest)) : Kept state' ∧ rest.length < bs.length := by
  unfold member at h
  split at h
  · cases h
  · rename_i b r
    split at h
    · split at h
      · cases h
      · rename_i key rest₁ hs
        have hlt := length_string hs
        rw [List.length_cons] at hle ⊢
        obtain ⟨hk', hlt'⟩ := hentry (by omega) hk h
        exact ⟨hk', by omega⟩
    · cases h

theorem members_keep {σ : Type} {entry : σ → String → Octets → Reading σ} {Kept : σ → Prop}
    {limit : Nat}
    (hentry : ∀ {state key bs state' rest}, List.length bs ≤ limit → Kept state →
      entry state key bs = .ok (state', rest) → Kept state' ∧ List.length rest < List.length bs)
    {first : Bool} {state state' : σ} {bs rest : Octets} {n : Nat} (hle : bs.length ≤ limit)
    (hk : Kept state) (h : members entry first state bs n = .ok (state', rest)) :
    Kept state' ∧ rest.length < bs.length := by
  induction n generalizing first state bs with
  | zero => cases h
  | succ n ih =>
    unfold members at h
    split at h
    · cases h
    · rename_i b r hs
      have hr := length_of_skipBlanks hs
      -- a member that has been read, and the rest of the object
      have hread : ∀ {read : Octets} {state₁ rest₁}, read.length ≤ bs.length →
          member entry state read = .ok (state₁, rest₁) →
          members entry false state₁ rest₁ n = .ok (state', rest) →
          Kept state' ∧ rest.length < bs.length := by
        intro read state₁ rest₁ hlen he h
        obtain ⟨hk₁, hlt₁⟩ := member_keep hentry (Nat.le_trans hlen hle) hk he
        obtain ⟨hk₂, hlt₂⟩ := ih (by omega) hk₁ h
        exact ⟨hk₂, by omega⟩
      have hfull : List.length (b :: r) ≤ bs.length := hr
      split at h
      · -- the closing bracket
        obtain ⟨rfl, rfl⟩ := Prod.mk.inj (Except.ok.inj h)
        exact ⟨hk, hr⟩
      · split at h
        · -- the first one stands without a comma
          split at h
          · cases h
          · rename_i he
            exact hread hfull he h
        · split at h
          · -- a later one behind its comma
            split at h
            · cases h
            · rename_i c r' hs'
              have hr' := length_of_skipBlanks hs'
              have hfull' : List.length (c :: r') ≤ bs.length := by
                rw [List.length_cons]
                omega
              split at h
              · cases h
              · split at h
                · cases h
                · rename_i he
                  exact hread hfull' he h
          · cases h

/-! ## Values -/

/-- The reading takes at least one octet, and its value is bounded by what it was given. -/
def Shrinks (value : Octets → Reading Json) : Prop :=
  ∀ {bs v rest}, value bs = .ok (v, rest) → List.length rest < List.length bs ∧ v.IsBounded bs.length

/-- A value out of a whole text is bounded by the text. -/
def WholeShrinks (whole : Octets → Except JsonFault Json) : Prop :=
  ∀ {bs v}, whole bs = .ok v → v.IsBounded (List.length bs)

theorem shrinks_tooDeep : Shrinks fun _ => fail .tooDeep := by
  intro bs v rest h
  cases h

/-- A value that holds no string is bounded by any text that is not empty. -/
theorem isBounded_leaf {bs : Octets} {n : Nat} (hlt : n < bs.length) {v : Json}
    (ho : v.IsOrdered) (hz : v.longest = 0) : v.IsBounded bs.length :=
  ⟨ho, by omega⟩

theorem exists_of_map_ok {ε α β : Type} {f : α → β} {x : Except ε α} {b : β}
    (h : x.map f = .ok b) : ∃ a, x = .ok a ∧ f a = b := by
  cases x with
  | error e => cases h
  | ok a => exact ⟨a, rfl, Except.ok.inj h⟩

theorem exists_of_mapResult_ok {α β : Type} {f : α → β} {x : Reading α} {b : β} {rest : Octets}
    (h : mapResult f x = .ok (b, rest)) : ∃ a, x = .ok (a, rest) ∧ f a = b := by
  cases x with
  | error e => cases h
  | ok p =>
    obtain ⟨rfl, rfl⟩ := Prod.mk.inj (Except.ok.inj h)
    exact ⟨p.1, rfl, rfl⟩

/-- A value shrinks if its containers do. -/
theorem anyValue_shrinks {list object : Octets → Reading Json} (hl : Shrinks list)
    (ho : Shrinks object) : Shrinks (anyValue list object) := by
  intro bs v rest h
  unfold anyValue at h
  split at h
  · cases h
  · rename_i b r hs
    have hr := length_of_skipBlanks hs
    have hfull : List.length (b :: r) ≤ bs.length := hr
    have hword : ∀ {cs : List Char} (w : Json), w.IsOrdered → w.longest = 0 →
        (word cs r).map (w, ·) = .ok (v, rest) →
        rest.length < bs.length ∧ v.IsBounded bs.length := by
      intro cs w hw hz h
      obtain ⟨rest', hrest, heq⟩ := exists_of_map_ok h
      obtain ⟨rfl, rfl⟩ := Prod.mk.inj heq
      have hle := length_word hrest
      exact ⟨by omega, isBounded_leaf hr hw hz⟩
    have hnumber : ∀ {negative : Bool} {digits : Octets}, digits.length ≤ bs.length →
        mapResult .number (number negative digits) = .ok (v, rest) →
        rest.length < bs.length ∧ v.IsBounded bs.length := by
      intro negative digits hd h
      obtain ⟨n, hn, rfl⟩ := exists_of_mapResult_ok h
      have hlt := length_number hn
      exact ⟨by omega, isBounded_leaf hr trivial rfl⟩
    have hcontainer : ∀ {value : Octets → Reading Json}, Shrinks value →
        value r = .ok (v, rest) → rest.length < bs.length ∧ v.IsBounded bs.length := by
      intro value hv h
      obtain ⟨hlt, hbounded⟩ := hv h
      exact ⟨by omega, hbounded.mono (Nat.le_of_lt hr)⟩
    -- the first octet decides what is read
    split at h
    · exact hword .null trivial rfl h
    · split at h
      · exact hword (.bool true) trivial rfl h
      · split at h
        · exact hword (.bool false) trivial rfl h
        · split at h
          · exact hnumber (Nat.le_of_lt hr) h
          · split at h
            · exact hnumber hfull h
            · split at h
              · obtain ⟨s, hstring, rfl⟩ := exists_of_mapResult_ok h
                have hlt := length_string hstring
                refine ⟨by omega, trivial, ?_⟩
                unfold Json.longest
                omega
              · split at h
                · exact hcontainer hl h
                · split at h
                  · exact hcontainer ho h
                  · cases h

theorem listOf_shrinks {value : Octets → Reading Json} (hv : Shrinks value) :
    Shrinks (listOf value) := by
  intro bs v rest h
  obtain ⟨vs, hvs, rfl⟩ := exists_of_mapResult_ok h
  have hitem : ∀ {state bs' state' rest}, List.length bs' ≤ bs.length →
      (∀ v ∈ state, v.IsBounded bs.length) → pushItem value state bs' = .ok (state', rest) →
      (∀ v ∈ state', v.IsBounded bs.length) ∧ List.length rest < List.length bs' := by
    intro state bs' state' rest hle hstate h
    unfold pushItem at h
    split at h
    · cases h
    · rename_i w rest' hw
      obtain ⟨rfl, rfl⟩ := Prod.mk.inj (Except.ok.inj h)
      obtain ⟨hlt, hbounded⟩ := hv hw
      refine ⟨fun u hu => ?_, hlt⟩
      rcases List.mem_cons.mp hu with rfl | hu
      · exact hbounded.mono hle
      · exact hstate u hu
  obtain ⟨hall, hlt⟩ := elements_keep hitem (Nat.le_refl _) (by simp) hvs
  refine ⟨hlt, Json.isBounded_array (by omega) fun v hv => ?_⟩
  exact hall v (List.mem_reverse.mp hv)

theorem length_memberValue {value : Octets → Reading Json} (hv : Shrinks value) {bs rest : Octets}
    {v : Json} (h : memberValue value bs = .ok (v, rest)) :
    rest.length < bs.length ∧ v.IsBounded bs.length := by
  unfold memberValue at h
  split at h
  · cases h
  · rename_i r hr
    have hcolon := length_colon hr
    obtain ⟨hlt, hbounded⟩ := hv h
    exact ⟨by omega, hbounded.mono (Nat.le_of_lt hcolon)⟩

/-- The members of an object put under their names stand in order. -/
theorem object_shrinks {value : Octets → Reading Json} (hv : Shrinks value) :
    Shrinks fun bs =>
      mapResult .object (members (putMember value) true [] bs (bs.length + 1)) := by
  intro bs v rest h
  obtain ⟨ms, hms, rfl⟩ := exists_of_mapResult_ok h
  have hentry : ∀ {state : Members} {key bs' state' rest}, List.length bs' ≤ bs.length →
      (Named.IsOrdered state ∧ ∀ m ∈ state, m.2.IsBounded bs.length) →
      putMember value state key bs' = .ok (state', rest) →
      (Named.IsOrdered state' ∧ ∀ m ∈ state', m.2.IsBounded bs.length) ∧
        List.length rest < List.length bs' := by
    intro state key bs' state' rest hle hstate h
    obtain ⟨w, hw, rfl⟩ := exists_of_mapResult_ok h
    obtain ⟨hlt, hbounded⟩ := length_memberValue hv hw
    refine ⟨⟨hstate.1.insert key w, fun m hm => ?_⟩, hlt⟩
    rcases Named.mem_insert hm with rfl | hm
    · exact hbounded.mono hle
    · exact hstate.2 m hm
  obtain ⟨⟨hordered, hall⟩, hlt⟩ :=
    members_keep hentry (Nat.le_refl _) ⟨List.Pairwise.nil, by simp⟩ hms
  exact ⟨hlt, Json.isBounded_object (by omega) hordered hall⟩

theorem skipBlanks_of_closeObject {bs rest : Octets} (h : closeObject bs = .ok rest) :
    skipBlanks bs = octet '\x7d' :: rest := by
  unfold closeObject at h
  split at h
  · cases h
  · rename_i b r hs
    split at h
    · rename_i hb
      rw [← Except.ok.inj h, hs, hb]
    · split at h <;> cases h

/-- Where an embedded text starts, a string stands in front, and it is the reserved name. -/
theorem exists_of_embeddedStart? {bs rest : Octets} (h : embeddedStart? bs = some rest) :
    ∃ r, skipBlanks bs = octet '"' :: r ∧ string r = .ok (Json.embeddedKey, rest) := by
  unfold embeddedStart? at h
  split at h
  · cases h
  · rename_i b r hs
    split at h
    · rename_i hb
      split at h
      · rename_i key rest' hkey
        split at h
        · rename_i hreserved
          obtain rfl := Option.some.inj h
          exact ⟨r, by rw [hs, hb], by rw [hkey, hreserved]⟩
        · cases h
      · cases h
    · cases h

/-- Behind the reserved name are a string and the end of the object, and the string is a text. -/
theorem exists_of_embeddedValue {whole : Octets → Except JsonFault Json} {bs rest : Octets} {v : Json}
    (h : embeddedValue whole bs = .ok (v, rest)) :
    ∃ r s rest', colon bs = .ok r ∧ stringValue Json.embeddedShape r = .ok (s, rest') ∧
      whole (Text.octets s) = .ok v ∧ closeObject rest' = .ok rest := by
  unfold embeddedValue at h
  split at h
  · cases h
  · rename_i r hcolon
    split at h
    · cases h
    · rename_i s rest' hstring
      split at h
      · cases h
      · rename_i w hwhole
        obtain ⟨rest'', hclose, heq⟩ := exists_of_map_ok h
        obtain ⟨rfl, rfl⟩ := Prod.mk.inj heq
        exact ⟨r, s, rest', hcolon, hstring, hwhole, hclose⟩

/-- An embedded text is shorter than the text around it. -/
theorem embeddedValue_shrinks {whole : Octets → Except JsonFault Json} (hw : WholeShrinks whole) :
    Shrinks (embeddedValue whole) := by
  intro bs v rest h
  obtain ⟨r, s, rest', hr, hs, hwhole, hclose⟩ := exists_of_embeddedValue h
  have hcolon := length_colon hr
  have hstring := length_stringValue hs
  have hend := length_of_skipBlanks (skipBlanks_of_closeObject hclose)
  exact ⟨by omega, (hw hwhole).mono (by omega)⟩

theorem valueBy_shrinks {whole : Octets → Except JsonFault Json} (hw : WholeShrinks whole)
    (d : Nat) : Shrinks (valueBy whole d) := by
  induction d with
  | zero => exact anyValue_shrinks shrinks_tooDeep shrinks_tooDeep
  | succ d ih =>
    refine anyValue_shrinks (listOf_shrinks ih) ?_
    intro bs v rest h
    simp only at h
    split at h
    · rename_i start hstart
      obtain ⟨r, hs, hkey⟩ := exists_of_embeddedStart? hstart
      have hlt : start.length < bs.length := by
        have hname := length_string hkey
        have hquote := length_of_skipBlanks hs
        omega
      obtain ⟨hrest, hbounded⟩ := embeddedValue_shrinks hw h
      exact ⟨by omega, hbounded.mono (Nat.le_of_lt hlt)⟩
    · exact object_shrinks ih h

theorem exists_of_complete_ok {α : Type} {r : Reading α} {a : α} (h : complete r = .ok a) :
    ∃ rest, r = .ok (a, rest) := by
  unfold complete at h
  split at h
  · cases h
  · rename_i b rest
    split at h
    · exact ⟨rest, by rw [Except.ok.inj h]⟩
    · cases h

theorem wholeValue_shrinks (levels : Nat) : WholeShrinks (wholeValue levels) := by
  induction levels with
  | zero =>
    intro bs v h
    cases h
  | succ n ih =>
    intro bs v h
    obtain ⟨rest, hread⟩ := exists_of_complete_ok h
    exact (valueBy_shrinks ih _ hread).2

end Scan

/-- A value out of a text is in order, and its strings are shorter than the text. -/
theorem Json.ofText_bounded {s : String} {v : Json} (h : ofText s = .ok v) :
    v.IsBounded (Text.octets s).length := by
  obtain ⟨rest, hread⟩ := Scan.exists_of_complete_ok h
  exact (Scan.valueBy_shrinks (Scan.wholeValue_shrinks _) _ hread).2

end AuditRelay
