import AuditRelay.Json.Reader
import AuditRelay.Proofs.Json.Numbers
import AuditRelay.Proofs.Json.Strings

/-!
# AuditRelay.Proofs.Json.RoundTrip — a written value is read back as it stands

A value with whole numbers is read back as the same tree, whatever its strings and names are, if it
has no more containers inside each other than the reader opens; if it has more, it is refused as too
deep (`tree_written`). The loops over elements and members are each treated once, for any reading of
one element or member.
-/

namespace AuditRelay

namespace Json

mutual

/-- Every number of the tree is whole. -/
def IsWhole : Json → Prop
  | .number n => n.IsWhole
  | .array items => AllWhole items
  | .object members => MembersWhole members
  | .null | .bool _ | .string _ => True

def AllWhole : List Json → Prop
  | [] => True
  | v :: vs => v.IsWhole ∧ AllWhole vs

def MembersWhole : List (String × Json) → Prop
  | [] => True
  | (_, v) :: ms => v.IsWhole ∧ MembersWhole ms

end

theorem AllWhole.of_mem {vs : List Json} (h : AllWhole vs) : ∀ v ∈ vs, v.IsWhole := by
  induction vs with
  | nil =>
    intro v hv
    cases hv
  | cons w ws ih =>
    unfold AllWhole at h
    intro v hv
    rcases List.mem_cons.mp hv with rfl | hv
    · exact h.1
    · exact ih h.2 v hv

theorem MembersWhole.of_mem {ms : List (String × Json)} (h : MembersWhole ms) :
    ∀ m ∈ ms, m.2.IsWhole := by
  induction ms with
  | nil =>
    intro m hm
    cases hm
  | cons w ws ih =>
    unfold MembersWhole at h
    intro m hm
    rcases List.mem_cons.mp hm with rfl | hm
    · exact h.1
    · exact ih h.2 m hm

theorem depthItems_le_iff {vs : List Json} {d : Nat} :
    depthItems vs ≤ d ↔ ∀ v ∈ vs, v.depth ≤ d := by
  induction vs with
  | nil => simp [depthItems]
  | cons v vs ih =>
    rw [depthItems, Nat.max_le, ih, List.forall_mem_cons]

theorem depthMembers_le_iff {ms : List (String × Json)} {d : Nat} :
    depthMembers ms ≤ d ↔ ∀ m ∈ ms, m.2.depth ≤ d := by
  induction ms with
  | nil => simp [depthMembers]
  | cons m ms ih =>
    rw [depthMembers, Nat.max_le, ih, List.forall_mem_cons]

/-! ## Elements and members one after the other -/

/-- What is written behind an element. -/
def afterItem : List Json → Octets
  | [] => []
  | v :: vs => ','.toUInt8 :: writtenItems (v :: vs)

/-- What is written behind a member. -/
def afterMember : List (String × Json) → Octets
  | [] => []
  | m :: ms => ','.toUInt8 :: writtenMembers (m :: ms)

theorem writtenItems_cons (v : Json) (vs : List Json) :
    writtenItems (v :: vs) = v.written ++ afterItem vs := by
  cases vs with
  | nil => rw [writtenItems, afterItem, List.append_nil]
  | cons w vs => rw [writtenItems, afterItem]

theorem writtenMembers_cons (k : String) (v : Json) (ms : List (String × Json)) :
    writtenMembers ((k, v) :: ms) =
      writtenString k ++ ':'.toUInt8 :: (v.written ++ afterMember ms) := by
  cases ms with
  | nil => rw [writtenMembers, afterMember, List.append_nil]
  | cons m ms => rw [writtenMembers, afterMember]

end Json

namespace Scan

theorem skipBlanks_cons {b : UInt8} (h : isJsonBlank b = false) (r : Octets) :
    skipBlanks (b :: r) = b :: r := by
  rw [skipBlanks, h]
  rfl

/-- A value begins with an octet that is neither a blank nor the end of a list. -/
structure Opens (b : UInt8) : Prop where
  blank : isJsonBlank b = false
  bracket : b ≠ octet ']'

theorem toUInt8_ne_of_isDigit {c : Char} (h : c.isDigit = true) {b : UInt8}
    (hb : b.toNat < 48 ∨ 57 < b.toNat) : c.toUInt8 ≠ b := by
  intro heq
  obtain ⟨hlo, hhi⟩ := Text.isDigit_bounds h
  have hnat : c.toUInt8.toNat = c.toNat := Text.toNat_toUInt8 (by omega)
  rw [heq] at hnat
  omega

theorem opens_digit {c : Char} (h : c.isDigit = true) : Opens c.toUInt8 := by
  have hne : ∀ b : UInt8, b.toNat < 48 ∨ 57 < b.toNat → c.toUInt8 ≠ b :=
    fun _ => toUInt8_ne_of_isDigit h
  refine ⟨?_, hne _ (by decide)⟩
  simp only [isJsonBlank, Bool.or_eq_false_iff, beq_eq_false_iff_ne]
  exact ⟨⟨⟨hne _ (by decide), hne _ (by decide)⟩, hne _ (by decide)⟩, hne _ (by decide)⟩

/-- The digits of a number begin with a digit. -/
theorem exists_octets_toString (n : Nat) :
    ∃ (c : Char) (r : Octets), c.isDigit = true ∧ Text.octets (toString n) = c.toUInt8 :: r := by
  rw [Text.octets_toString]
  cases hds : Nat.toDigits 10 n with
  | nil => exact absurd hds Nat.toDigits_ne_nil
  | cons c cs =>
    have hc : c.isDigit = true :=
      Text.isDigit_of_mem_toDigits (hds ▸ List.mem_cons_self : c ∈ Nat.toDigits 10 n)
    exact ⟨c, cs.map Char.toUInt8, hc, rfl⟩

theorem exists_written {v : Json} (h : v.IsWhole) : ∃ b r, v.written = b :: r ∧ Opens b := by
  have hopens : ∀ b : UInt8, isJsonBlank b = false ∧ b ≠ octet ']' → Opens b :=
    fun b hb => ⟨hb.1, hb.2⟩
  cases v with
  | null =>
    rw [Json.written]
    exact ⟨_, _, rfl, hopens _ (by decide)⟩
  | bool b =>
    cases b with
    | true =>
      rw [Json.written]
      exact ⟨_, _, rfl, hopens _ (by decide)⟩
    | false =>
      rw [Json.written]
      exact ⟨_, _, rfl, hopens _ (by decide)⟩
  | number n =>
    rw [Json.written]
    cases n with
    | real d => exact absurd h (by simp [Json.IsWhole, Number.IsWhole])
    | int n =>
      cases n with
      | ofNat n =>
        obtain ⟨c, r, hc, hs⟩ := exists_octets_toString n
        exact ⟨c.toUInt8, r, hs, opens_digit hc⟩
      | negSucc n =>
        refine ⟨octet '-', _, Text.octets_toString_negSucc n, hopens _ (by decide)⟩
  | string s =>
    rw [Json.written, Json.writtenString]
    exact ⟨_, _, rfl, hopens _ (by decide)⟩
  | array items =>
    rw [Json.written]
    exact ⟨_, _, rfl, hopens _ (by decide)⟩
  | object ms =>
    rw [Json.written]
    exact ⟨_, _, rfl, hopens _ (by decide)⟩

/-! ## The loops -/

theorem closes_afterItem (vs : List Json) (rest : Octets) :
    Closes (Json.afterItem vs ++ octet ']' :: rest) := by
  intro b hb
  cases vs with
  | nil => exact .inr (.inl (Option.some.inj hb).symm)
  | cons v vs => exact .inl (Option.some.inj hb).symm

theorem closes_afterMember (ms : List (String × Json)) (rest : Octets) :
    Closes (Json.afterMember ms ++ octet '\x7d' :: rest) := by
  intro b hb
  cases ms with
  | nil => exact .inr (.inr (Option.some.inj hb).symm)
  | cons m ms => exact .inl (Option.some.inj hb).symm

section Loops

variable {σ : Type} {good : Json → Prop} [DecidablePred good] {f : JsonFault}

/-- The elements behind the first are read one after the other, up to the first that is refused. -/
theorem elements_after {value : Octets → Reading Json} {vs : List Json}
    (hwhole : ∀ v ∈ vs, v.IsWhole)
    (hv : ∀ v ∈ vs, ∀ tail, Closes tail →
      value (v.written ++ tail) = if good v then .ok (v, tail) else .error f)
    (acc : List Json) (rest : Octets) {n : Nat} (hn : vs.length < n) :
    elements (pushItem value) false acc (Json.afterItem vs ++ octet ']' :: rest) n =
      if ∀ v ∈ vs, good v then .ok (vs.reverse ++ acc, rest) else .error f := by
  induction vs generalizing acc n with
  | nil =>
    obtain ⟨n, rfl⟩ := Nat.exists_eq_succ_of_ne_zero (Nat.ne_of_gt hn)
    rw [if_pos (by simp)]
    rfl
  | cons v vs ih =>
    obtain ⟨n, rfl⟩ := Nat.exists_eq_succ_of_ne_zero (Nat.ne_of_gt (Nat.zero_lt_of_lt hn))
    obtain ⟨b, r, hb, hopens⟩ := exists_written (hwhole v List.mem_cons_self)
    have hread := hv v List.mem_cons_self _ (closes_afterItem vs rest)
    have hrest := ih (fun v hv => hwhole v (List.mem_cons_of_mem _ hv))
      (fun w hw => hv w (List.mem_cons_of_mem _ hw)) (v :: acc) (Nat.lt_of_succ_lt_succ hn)
    have htext : Json.afterItem (v :: vs) ++ octet ']' :: rest =
        octet ',' :: (b :: (r ++ (Json.afterItem vs ++ octet ']' :: rest))) := by
      rw [Json.afterItem, Json.writtenItems_cons, hb]
      simp
    have hvalue : b :: (r ++ (Json.afterItem vs ++ octet ']' :: rest)) =
        v.written ++ (Json.afterItem vs ++ octet ']' :: rest) := by
      rw [hb, List.cons_append]
    have hcomma : skipBlanks (octet ',' :: (b :: (r ++ (Json.afterItem vs ++ octet ']' :: rest)))) =
        octet ',' :: (b :: (r ++ (Json.afterItem vs ++ octet ']' :: rest))) :=
      skipBlanks_cons (by decide) _
    rw [htext, elements, hcomma]
    simp only
    rw [if_neg (by decide), if_neg Bool.false_ne_true, if_true, skipBlanks_cons hopens.blank]
    simp only
    rw [if_neg hopens.bracket, hvalue, pushItem, hread]
    by_cases hgood : good v
    · simp only [hgood, if_true, hrest, List.forall_mem_cons, true_and, List.reverse_cons,
        List.append_assoc, List.singleton_append]
    · simp only [hgood, if_false, List.forall_mem_cons, false_and]

/-- The elements of a list. -/
theorem elements_written {value : Octets → Reading Json} {vs : List Json}
    (hwhole : ∀ v ∈ vs, v.IsWhole)
    (hv : ∀ v ∈ vs, ∀ tail, Closes tail →
      value (v.written ++ tail) = if good v then .ok (v, tail) else .error f)
    (rest : Octets) {n : Nat} (hn : vs.length < n) :
    elements (pushItem value) true [] (Json.writtenItems vs ++ octet ']' :: rest) n =
      if ∀ v ∈ vs, good v then .ok (vs.reverse, rest) else .error f := by
  cases vs with
  | nil =>
    obtain ⟨n, rfl⟩ := Nat.exists_eq_succ_of_ne_zero (Nat.ne_of_gt hn)
    rw [if_pos (by simp)]
    rfl
  | cons v vs =>
    obtain ⟨n, rfl⟩ := Nat.exists_eq_succ_of_ne_zero (Nat.ne_of_gt (Nat.zero_lt_of_lt hn))
    obtain ⟨b, r, hb, hopens⟩ := exists_written (hwhole v List.mem_cons_self)
    have hread := hv v List.mem_cons_self _ (closes_afterItem vs rest)
    have hrest := elements_after (fun v hv => hwhole v (List.mem_cons_of_mem _ hv))
      (fun w hw => hv w (List.mem_cons_of_mem _ hw)) [v] rest (Nat.lt_of_succ_lt_succ hn)
    have htext : Json.writtenItems (v :: vs) ++ octet ']' :: rest =
        b :: (r ++ (Json.afterItem vs ++ octet ']' :: rest)) := by
      rw [Json.writtenItems_cons, hb]
      simp
    have hvalue : b :: (r ++ (Json.afterItem vs ++ octet ']' :: rest)) =
        v.written ++ (Json.afterItem vs ++ octet ']' :: rest) := by
      rw [hb, List.cons_append]
    rw [htext, elements, skipBlanks_cons hopens.blank]
    simp only
    rw [if_neg hopens.bracket, if_true, hvalue, pushItem, hread]
    by_cases hgood : good v
    · simp only [hgood, if_true, hrest, List.forall_mem_cons, true_and, List.reverse_cons]
    · simp only [hgood, if_false, List.forall_mem_cons, false_and]

/-- A written name is read, and what is behind it is left to the entry. -/
theorem member_written (entry : σ → String → Octets → Reading σ) (state : σ) (k : String)
    (rest : Octets) :
    member entry state (Json.writtenString k ++ rest) = entry state k rest := by
  have htext : Json.writtenString k ++ rest =
      octet '"' :: (k.toList.flatMap Json.escaped ++ octet '"' :: rest) := by
    rw [Json.writtenString]
    simp
  rw [htext, member, if_pos rfl, string_written]

/-- The members behind the first are read one after the other, up to the first that is refused. -/
theorem members_after (entry : σ → String → Octets → Reading σ) (put : σ → String × Json → σ)
    (good : Json → Prop) [DecidablePred good] {ms : List (String × Json)}
    (he : ∀ m ∈ ms, ∀ state tail, Closes tail →
      entry state m.1 (octet ':' :: (m.2.written ++ tail)) =
        if good m.2 then .ok (put state m, tail) else .error f)
    (state : σ) (rest : Octets) {n : Nat} (hn : ms.length < n) :
    members entry false state (Json.afterMember ms ++ octet '\x7d' :: rest) n =
      if ∀ m ∈ ms, good m.2 then .ok (ms.foldl put state, rest) else .error f := by
  induction ms generalizing state n with
  | nil =>
    obtain ⟨n, rfl⟩ := Nat.exists_eq_succ_of_ne_zero (Nat.ne_of_gt hn)
    rw [if_pos (by simp)]
    rfl
  | cons m ms ih =>
    obtain ⟨n, rfl⟩ := Nat.exists_eq_succ_of_ne_zero (Nat.ne_of_gt (Nat.zero_lt_of_lt hn))
    obtain ⟨k, v⟩ := m
    have hread := he (k, v) List.mem_cons_self state _ (closes_afterMember ms rest)
    have hrest := ih (fun m hm => he m (List.mem_cons_of_mem _ hm)) (put state (k, v))
      (Nat.lt_of_succ_lt_succ hn)
    have htext : Json.afterMember ((k, v) :: ms) ++ octet '\x7d' :: rest =
        octet ',' :: (Json.writtenString k ++
          octet ':' :: (v.written ++ (Json.afterMember ms ++ octet '\x7d' :: rest))) := by
      rw [Json.afterMember, Json.writtenMembers_cons]
      simp
    have hcomma : ∀ r, skipBlanks (octet ',' :: r) = octet ',' :: r :=
      fun r => skipBlanks_cons (by decide) r
    have hquote : ∀ r, skipBlanks (Json.writtenString k ++ r) = Json.writtenString k ++ r :=
      fun r => skipBlanks_cons (by decide) _
    have hmember := member_written entry state k
      (octet ':' :: (v.written ++ (Json.afterMember ms ++ octet '\x7d' :: rest)))
    rw [hread] at hmember
    rw [htext, members, hcomma]
    simp only
    rw [if_neg (by decide), if_neg Bool.false_ne_true, if_true, hquote]
    rw [Json.writtenString] at hmember ⊢
    simp only [List.cons_append] at hmember ⊢
    rw [if_neg (by decide), hmember]
    by_cases hgood : good v
    · simp only [hgood, if_true, hrest, List.forall_mem_cons, true_and, List.foldl_cons]
    · simp only [hgood, if_false, List.forall_mem_cons, false_and]

/-- The members of an object, of which there is one at least. -/
theorem members_cons (entry : σ → String → Octets → Reading σ) (state : σ) (k : String) (v : Json)
    (ms : List (String × Json)) (rest : Octets) (n : Nat) :
    members entry true state (Json.writtenMembers ((k, v) :: ms) ++ octet '\x7d' :: rest) (n + 1) =
      match entry state k
        (octet ':' :: (v.written ++ (Json.afterMember ms ++ octet '\x7d' :: rest))) with
      | .error f => .error f
      | .ok (state, rest) => members entry false state rest n := by
  have htext : Json.writtenMembers ((k, v) :: ms) ++ octet '\x7d' :: rest =
      Json.writtenString k ++
        octet ':' :: (v.written ++ (Json.afterMember ms ++ octet '\x7d' :: rest)) := by
    rw [Json.writtenMembers_cons]
    simp
  have hquote : ∀ r, skipBlanks (Json.writtenString k ++ r) = Json.writtenString k ++ r :=
    fun r => skipBlanks_cons (by decide) _
  have hmember := member_written entry state k
    (octet ':' :: (v.written ++ (Json.afterMember ms ++ octet '\x7d' :: rest)))
  rw [htext, members, hquote, ← hmember]
  rw [Json.writtenString]
  simp only [List.cons_append]
  rw [if_neg (by decide)]
  exact if_pos trivial

/-- The members of an object. -/
theorem members_written (entry : σ → String → Octets → Reading σ) (put : σ → String × Json → σ)
    (good : Json → Prop) [DecidablePred good] {ms : List (String × Json)}
    (he : ∀ m ∈ ms, ∀ state tail, Closes tail →
      entry state m.1 (octet ':' :: (m.2.written ++ tail)) =
        if good m.2 then .ok (put state m, tail) else .error f)
    (state : σ) (rest : Octets) {n : Nat} (hn : ms.length < n) :
    members entry true state (Json.writtenMembers ms ++ octet '\x7d' :: rest) n =
      if ∀ m ∈ ms, good m.2 then .ok (ms.foldl put state, rest) else .error f := by
  cases ms with
  | nil =>
    obtain ⟨n, rfl⟩ := Nat.exists_eq_succ_of_ne_zero (Nat.ne_of_gt hn)
    rw [if_pos (by simp)]
    rfl
  | cons m ms =>
    obtain ⟨n, rfl⟩ := Nat.exists_eq_succ_of_ne_zero (Nat.ne_of_gt (Nat.zero_lt_of_lt hn))
    obtain ⟨k, v⟩ := m
    have hread := he (k, v) List.mem_cons_self state _ (closes_afterMember ms rest)
    rw [members_cons, hread]
    by_cases hgood : good v
    · have hrest := members_after entry put good (fun m hm => he m (List.mem_cons_of_mem _ hm))
        (put state (k, v)) rest (Nat.lt_of_succ_lt_succ hn)
      simp only [hgood, if_true, hrest, List.forall_mem_cons, true_and, List.foldl_cons]
    · simp only [hgood, if_false, List.forall_mem_cons, false_and]

end Loops

/-! ## Values -/

theorem anyValue_digit (list object : Octets → Reading Json) {c : Char} (h : c.isDigit = true)
    (r : Octets) :
    anyValue list object (c.toUInt8 :: r) = mapResult .number (number false (c.toUInt8 :: r)) := by
  have hne : ∀ b : UInt8, b.toNat < 48 ∨ 57 < b.toNat → c.toUInt8 ≠ b :=
    fun _ => toUInt8_ne_of_isDigit h
  rw [anyValue, skipBlanks_cons (opens_digit h).blank]
  simp only
  rw [if_neg (hne _ (by decide)), if_neg (hne _ (by decide)), if_neg (hne _ (by decide)),
    if_neg (hne _ (by decide)), if_pos (isDigit_toUInt8 h).1]

/-- A whole number is read as itself, whatever containers are read as. -/
theorem anyValue_number (list object : Octets → Reading Json) {n : Number} (hn : n.IsWhole)
    {rest : Octets} (hr : Closes rest) :
    anyValue list object (Json.writtenNumber n ++ rest) = .ok (.number n, rest) := by
  cases n with
  | real d => exact absurd hn (by simp [Number.IsWhole])
  | int n =>
    cases n with
    | ofNat n =>
      have hlimit : n < 2 ^ 64 := hn
      have hread := number_written hlimit hr
      obtain ⟨c, r, hc, hs⟩ := exists_octets_toString n
      have hwritten : Json.writtenNumber (.int (Int.ofNat n)) = Text.octets (toString n) := rfl
      rw [hwritten]
      rw [hs, List.cons_append] at hread ⊢
      rw [anyValue_digit list object hc, hread]
      rfl
    | negSucc n =>
      have hlimit : n + 1 ≤ 2 ^ 63 := hn
      have hread := number_written_neg (Nat.succ_pos n) hlimit hr
      have hminus : anyValue list object (octet '-' :: (Text.octets (toString (n + 1)) ++ rest)) =
          mapResult .number (number true (Text.octets (toString (n + 1)) ++ rest)) := rfl
      have hwritten : Json.writtenNumber (.int (Int.negSucc n)) =
          octet '-' :: Text.octets (toString (n + 1)) := Text.octets_toString_negSucc n
      rw [hwritten, List.cons_append, hminus, hread]
      rfl

theorem anyValue_string (list object : Octets → Reading Json) (s : String) (rest : Octets) :
    anyValue list object (Json.writtenString s ++ rest) = .ok (.string s, rest) := by
  have htext : Json.writtenString s ++ rest =
      octet '"' :: (s.toList.flatMap Json.escaped ++ octet '"' :: rest) := by
    rw [Json.writtenString]
    simp
  have hquote : ∀ r, anyValue list object (octet '"' :: r) = mapResult .string (string r) :=
    fun _ => rfl
  rw [htext, hquote, string_written]
  rfl

/-- A value without containers is read as itself, whatever containers are read as. -/
theorem anyValue_leaf (list object : Octets → Reading Json) {v : Json} (hv : v.IsWhole)
    (hz : v.depth = 0) {rest : Octets} (hr : Closes rest) :
    anyValue list object (v.written ++ rest) = .ok (v, rest) := by
  cases v with
  | null => rfl
  | bool b => cases b <;> rfl
  | number n =>
    rw [Json.written]
    exact anyValue_number list object hv hr
  | string s =>
    rw [Json.written]
    exact anyValue_string list object s rest
  | array items =>
    rw [Json.depth] at hz
    exact absurd hz (Nat.succ_ne_zero _)
  | object ms =>
    rw [Json.depth] at hz
    exact absurd hz (Nat.succ_ne_zero _)

/-- The brackets of a list are dropped, and its elements are left to the reading of lists. -/
theorem anyValue_array (list object : Octets → Reading Json) (items : List Json)
    (rest : Octets) :
    anyValue list object ((Json.array items).written ++ rest) =
      list (Json.writtenItems items ++ octet ']' :: rest) := by
  have htext : (Json.array items).written ++ rest =
      octet '[' :: (Json.writtenItems items ++ octet ']' :: rest) := by
    rw [Json.written]
    simp
  rw [htext]
  rfl

theorem anyValue_object (list object : Octets → Reading Json) (ms : List (String × Json))
    (rest : Octets) :
    anyValue list object ((Json.object ms).written ++ rest) =
      object (Json.writtenMembers ms ++ octet '\x7d' :: rest) := by
  have htext : (Json.object ms).written ++ rest =
      octet '\x7b' :: (Json.writtenMembers ms ++ octet '\x7d' :: rest) := by
    rw [Json.written]
    simp
  rw [htext]
  rfl

/-- Every element and every member takes octets, so the loops are given rounds enough. -/
theorem length_lt_writtenItems (vs : List Json) (rest : Octets) (hwhole : ∀ v ∈ vs, v.IsWhole) :
    vs.length < (Json.writtenItems vs ++ octet ']' :: rest).length + 1 := by
  have hle : vs.length ≤ (Json.writtenItems vs).length := by
    induction vs with
    | nil => exact Nat.le_refl _
    | cons v vs ih =>
      obtain ⟨b, r, hb, -⟩ := exists_written (hwhole v List.mem_cons_self)
      have ih := ih fun v hv => hwhole v (List.mem_cons_of_mem _ hv)
      rw [Json.writtenItems_cons, hb]
      cases vs with
      | nil => simp
      | cons w vs =>
        simp only [Json.afterItem, List.length_append, List.length_cons] at ih ⊢
        omega
  simp only [List.length_append, List.length_cons]
  omega

theorem length_lt_writtenMembers (ms : List (String × Json)) (rest : Octets) :
    ms.length < (Json.writtenMembers ms ++ octet '\x7d' :: rest).length + 1 := by
  have hle : ms.length ≤ (Json.writtenMembers ms).length := by
    induction ms with
    | nil => exact Nat.le_refl _
    | cons m ms ih =>
      obtain ⟨k, v⟩ := m
      rw [Json.writtenMembers_cons]
      cases ms with
      | nil =>
        simp only [List.length_append, List.length_cons, List.length_nil]
        omega
      | cons m ms =>
        simp only [Json.afterMember, List.length_append, List.length_cons] at ih ⊢
        omega
  simp only [List.length_append, List.length_cons]
  omega

theorem foldl_push (ms acc : List (String × Json)) :
    ms.foldl (fun acc m => m :: acc) acc = ms.reverse ++ acc := by
  induction ms generalizing acc with
  | nil => rfl
  | cons m ms ih => rw [List.foldl_cons, ih, List.reverse_cons, List.append_assoc,
      List.singleton_append]

/-- A written member is read from behind its name. -/
theorem pushMember_written {value : Octets → Reading Json} {good : Prop} [Decidable good]
    {f : JsonFault} {k : String} {v : Json} {tail : Octets}
    (hv : value (v.written ++ tail) = if good then .ok (v, tail) else .error f)
    (acc : List (String × Json)) :
    pushMember value acc k (octet ':' :: (v.written ++ tail)) =
      if good then .ok ((k, v) :: acc, tail) else .error f := by
  have hcolon : colon (octet ':' :: (v.written ++ tail)) = .ok (v.written ++ tail) := rfl
  rw [pushMember, memberValue, hcolon]
  simp only
  rw [hv]
  by_cases hgood : good
  · rw [if_pos hgood, if_pos hgood]
    rfl
  · rw [if_neg hgood, if_neg hgood]
    rfl

/-- A written value is read as it stands if it is not too deep, and else is refused for that. -/
theorem tree_written (d : Nat) {v : Json} (hv : v.IsWhole) {rest : Octets} (hr : Closes rest) :
    tree d (v.written ++ rest) = if v.depth ≤ d then .ok (v, rest) else fail .tooDeep := by
  induction d generalizing v rest with
  | zero =>
    unfold tree
    cases v with
    | null | bool _ | number _ | string _ =>
      rw [anyValue_leaf _ _ hv (by rw [Json.depth]) hr, Json.depth, if_pos (Nat.le_refl _)]
    | array items =>
      -- no container may be opened any more
      rw [anyValue_array, Json.depth, if_neg (Nat.not_succ_le_zero _)]
    | object ms =>
      rw [anyValue_object, Json.depth, if_neg (Nat.not_succ_le_zero _)]
  | succ d ih =>
    unfold tree
    cases v with
    | null | bool _ | number _ | string _ =>
      rw [anyValue_leaf _ _ hv (by rw [Json.depth]) hr, Json.depth, if_pos (Nat.zero_le _)]
    | array items =>
      have hwhole : ∀ v ∈ items, v.IsWhole := by
        unfold Json.IsWhole at hv
        exact hv.of_mem
      have hread := elements_written hwhole
        (fun v hv tail ht => ih (hwhole v hv) ht) rest (length_lt_writtenItems items rest hwhole)
      rw [anyValue_array, listOf, hread, Json.depth]
      simp only [Nat.add_le_add_iff_right, Json.depthItems_le_iff]
      by_cases hdepth : ∀ v ∈ items, v.depth ≤ d
      · rw [if_pos hdepth, if_pos hdepth]
        simp only [mapResult, List.reverse_reverse]
      · rw [if_neg hdepth, if_neg hdepth]
        rfl
    | object ms =>
      have hwhole : ∀ m ∈ ms, m.2.IsWhole := by
        unfold Json.IsWhole at hv
        exact hv.of_mem
      have hentry : ∀ m ∈ ms, ∀ acc tail, Closes tail →
          pushMember (tree d) acc m.1 (octet ':' :: (m.2.written ++ tail)) =
            if m.2.depth ≤ d then .ok (m :: acc, tail) else fail .tooDeep :=
        fun m hm acc tail ht => pushMember_written (ih (hwhole m hm) ht) acc
      have hread := members_written (pushMember (tree d)) (fun acc m => m :: acc)
        (fun v => v.depth ≤ d) hentry [] rest (length_lt_writtenMembers ms rest)
      rw [anyValue_object, hread, Json.depth]
      simp only [Nat.add_le_add_iff_right, Json.depthMembers_le_iff]
      by_cases hdepth : ∀ m ∈ ms, m.2.depth ≤ d
      · rw [if_pos hdepth, if_pos hdepth, foldl_push, List.append_nil]
        simp only [mapResult, List.reverse_reverse]
      · rw [if_neg hdepth, if_neg hdepth]
        rfl

end Scan

end AuditRelay
