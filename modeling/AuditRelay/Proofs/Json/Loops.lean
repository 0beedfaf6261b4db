import AuditRelay.Proofs.Json.Bounds

/-!
# AuditRelay.Proofs.Json.Loops — lists, objects and values, round by round

A loop over elements or members that reaches the end of its container goes by `Scan.Rounds`, whatever
is done with an element or a member. So two loops can be compared by comparing one round of each: if
the items of one follow those of the other (`Scan.Follows`), the loops end at the same octet, and what
their states have in common is kept.

`Scan.Begun` says the same of a single value: its first octet decides how it is read on.
-/

namespace AuditRelay

namespace Scan

/-! ## The rounds of a loop -/

/-- Where the next element or member starts, unless the container is at its end. -/
def nextStart? (closer : UInt8) (first : Bool) (bs : Octets) : Option Octets :=
  match skipBlanks bs with
  | [] => none
  | b :: r =>
    if b = closer then none
    else if first then some (b :: r)
    else if b = octet ',' then
      match skipBlanks r with
      | [] => none
      | c :: r => if c = closer then none else some (c :: r)
    else none

/-- A container is read up to its closer, in at most so many rounds. -/
inductive Rounds {σ : Type} (closer : UInt8) (item : σ → Octets → Reading σ) :
    Bool → Nat → σ → Octets → σ → Octets → Prop
  | close {first : Bool} {n : Nat} {state : σ} {bs rest : Octets}
      (hclose : skipBlanks bs = closer :: rest) :
      Rounds closer item first (n + 1) state bs state rest
  | next {first : Bool} {n : Nat} {state state₁ state' : σ} {bs start rest₁ rest : Octets}
      (hstart : nextStart? closer first bs = some start)
      (hitem : item state start = .ok (state₁, rest₁))
      (hrounds : Rounds closer item false n state₁ rest₁ state' rest) :
      Rounds closer item first (n + 1) state bs state' rest

section Loops

variable {σ τ : Type} {first : Bool} {n : Nat} {state state' : σ} {bs rest : Octets}

theorem elements_succ_eq_ok_iff {item : σ → Octets → Reading σ} :
    elements item first state bs (n + 1) = .ok (state', rest) ↔
      (skipBlanks bs = octet ']' :: rest ∧ state = state') ∨
      ∃ start state₁ rest₁, nextStart? (octet ']') first bs = some start ∧
        item state start = .ok (state₁, rest₁) ∧
        elements item false state₁ rest₁ n = .ok (state', rest) := by
  rw [elements, nextStart?]
  cases skipBlanks bs with
  | nil => simp
  | cons b r =>
    by_cases hb : b = octet ']'
    · simp [hb, and_comm]
    · simp only [if_neg hb]
      grind

theorem members_succ_eq_ok_iff {entry : σ → String → Octets → Reading σ} :
    members entry first state bs (n + 1) = .ok (state', rest) ↔
      (skipBlanks bs = octet '\x7d' :: rest ∧ state = state') ∨
      ∃ start state₁ rest₁, nextStart? (octet '\x7d') first bs = some start ∧
        member entry state start = .ok (state₁, rest₁) ∧
        members entry false state₁ rest₁ n = .ok (state', rest) := by
  rw [members, nextStart?]
  cases skipBlanks bs with
  | nil => simp
  | cons b r =>
    by_cases hb : b = octet '\x7d'
    · simp [hb, and_comm]
    · simp only [if_neg hb]
      grind

/-- A loop that does such a round at a time and ends well has gone by rounds. -/
theorem rounds_of_loop {closer : UInt8} {item : σ → Octets → Reading σ}
    {loop : Bool → σ → Octets → Nat → Reading σ}
    (hzero : ∀ {first state bs p}, loop first state bs 0 ≠ .ok p)
    (hsucc : ∀ {first state bs n state' rest}, loop first state bs (n + 1) = .ok (state', rest) ↔
      (skipBlanks bs = closer :: rest ∧ state = state') ∨
      ∃ start state₁ rest₁, nextStart? closer first bs = some start ∧
        item state start = .ok (state₁, rest₁) ∧ loop false state₁ rest₁ n = .ok (state', rest)) :
    loop first state bs n = .ok (state', rest) ↔
      Rounds closer item first n state bs state' rest := by
  induction n generalizing first state bs with
  | zero =>
    constructor
    · intro h
      exact absurd h hzero
    · intro h
      cases h
  | succ n ih =>
    rw [hsucc]
    constructor
    · rintro (⟨hclose, rfl⟩ | ⟨start, state₁, rest₁, hstart, hitem, h⟩)
      · exact .close hclose
      · exact .next hstart hitem (ih.mp h)
    · intro h
      cases h with
      | close hclose => exact .inl ⟨hclose, rfl⟩
      | next hstart hitem hrounds => exact .inr ⟨_, _, _, hstart, hitem, ih.mpr hrounds⟩

theorem elements_eq_ok_iff {item : σ → Octets → Reading σ} :
    elements item first state bs n = .ok (state', rest) ↔
      Rounds (octet ']') item first n state bs state' rest :=
  rounds_of_loop (fun h => by cases h) elements_succ_eq_ok_iff

theorem members_eq_ok_iff {entry : σ → String → Octets → Reading σ} :
    members entry first state bs n = .ok (state', rest) ↔
      Rounds (octet '\x7d') (member entry) first n state bs state' rest :=
  rounds_of_loop (fun h => by cases h) members_succ_eq_ok_iff

/-- The second reading does what the first one does, and their states stay alike. `Wanted` is what is
known of the last state of the first, and so of all states before it. -/
structure Follows (item : σ → Octets → Reading σ) (item' : τ → Octets → Reading τ)
    (Wanted : σ → Prop) (Alike : σ → τ → Prop) : Prop where
  back : ∀ {state bs state' rest}, item state bs = .ok (state', rest) → Wanted state' →
    Wanted state
  step : ∀ {state other bs state' rest}, Alike state other → Wanted state' →
    item state bs = .ok (state', rest) →
    ∃ other', item' other bs = .ok (other', rest) ∧ Alike state' other'

variable {Wanted : σ → Prop} {Alike : σ → τ → Prop} {other : τ}

theorem Follows.rounds {closer : UInt8} {item : σ → Octets → Reading σ}
    {item' : τ → Octets → Reading τ} (hf : Follows item item' Wanted Alike)
    (h : Rounds closer item first n state bs state' rest) (hw : Wanted state') :
    Wanted state ∧ ∀ {other}, Alike state other →
      ∃ other', Rounds closer item' first n other bs other' rest ∧ Alike state' other' := by
  induction h with
  | close hclose => exact ⟨hw, fun ha => ⟨_, .close hclose, ha⟩⟩
  | next hstart hitem _ ih =>
    obtain ⟨hw₁, hfollow⟩ := ih hw
    refine ⟨hf.back hitem hw₁, fun ha => ?_⟩
    obtain ⟨other₁, hitem', ha₁⟩ := hf.step ha hw₁ hitem
    obtain ⟨other', hrounds', ha'⟩ := hfollow ha₁
    exact ⟨other', .next hstart hitem' hrounds', ha'⟩

theorem Follows.elements {item : σ → Octets → Reading σ} {item' : τ → Octets → Reading τ}
    (hf : Follows item item' Wanted Alike)
    (h : Scan.elements item first state bs n = .ok (state', rest)) (hw : Wanted state')
    (ha : Alike state other) :
    ∃ other', Scan.elements item' first other bs n = .ok (other', rest) ∧ Alike state' other' := by
  obtain ⟨other', hrounds, ha'⟩ := (hf.rounds (elements_eq_ok_iff.mp h) hw).2 ha
  exact ⟨other', elements_eq_ok_iff.mpr hrounds, ha'⟩

theorem member_eq_ok_iff {entry : σ → String → Octets → Reading σ} :
    member entry state bs = .ok (state', rest) ↔
      ∃ r key rest₁, bs = octet '"' :: r ∧ string r = .ok (key, rest₁) ∧
        entry state key rest₁ = .ok (state', rest) := by
  cases bs with
  | nil => simp [member]
  | cons b r =>
    rw [member]
    by_cases hb : b = octet '"'
    · cases hs : string r with
      | error f => simp [hb, hs]
      | ok p => simp [hb, hs, Prod.ext_iff, and_assoc]
    · simp [hb]

variable {entry : σ → String → Octets → Reading σ} {entry' : τ → String → Octets → Reading τ}

/-- Whole members follow each other if what stands behind their names does. -/
theorem Follows.member
    (hf : ∀ key, Follows (fun s bs => entry s key bs) (fun s bs => entry' s key bs) Wanted Alike) :
    Follows (member entry) (member entry') Wanted Alike := by
  constructor
  · intro state bs state' rest h hw
    obtain ⟨r, key, rest₁, -, -, he⟩ := member_eq_ok_iff.mp h
    exact (hf key).back he hw
  · intro state other bs state' rest ha hw h
    obtain ⟨r, key, rest₁, rfl, hs, he⟩ := member_eq_ok_iff.mp h
    obtain ⟨other', he', ha'⟩ := (hf key).step ha hw he
    exact ⟨other', member_eq_ok_iff.mpr ⟨r, key, rest₁, rfl, hs, he'⟩, ha'⟩

theorem Follows.members
    (hf : ∀ key, Follows (fun s bs => entry s key bs) (fun s bs => entry' s key bs) Wanted Alike)
    (h : Scan.members entry first state bs n = .ok (state', rest)) (hw : Wanted state')
    (ha : Alike state other) :
    ∃ other', Scan.members entry' first other bs n = .ok (other', rest) ∧ Alike state' other' := by
  obtain ⟨other', hrounds, ha'⟩ := ((Follows.member hf).rounds (members_eq_ok_iff.mp h) hw).2 ha
  exact ⟨other', members_eq_ok_iff.mpr hrounds, ha'⟩

end Loops

/-! ## One element, one member -/

section Items

variable {value : Octets → Reading Json} {bs rest : Octets}

theorem mapResult_eq_ok_iff {α β : Type} {f : α → β} {x : Reading α} {b : β} :
    mapResult f x = .ok (b, rest) ↔ ∃ a, x = .ok (a, rest) ∧ f a = b := by
  constructor
  · exact exists_of_mapResult_ok
  · rintro ⟨a, rfl, rfl⟩
    rfl

theorem pushItem_eq_ok_iff {acc acc' : List Json} :
    pushItem value acc bs = .ok (acc', rest) ↔
      ∃ v, value bs = .ok (v, rest) ∧ v :: acc = acc' := by
  rw [pushItem]
  cases value bs with
  | error f => simp
  | ok p => simp [Prod.ext_iff, and_comm]

theorem memberValue_eq_ok_iff {v : Json} :
    memberValue value bs = .ok (v, rest) ↔ ∃ r, colon bs = .ok r ∧ value r = .ok (v, rest) := by
  rw [memberValue]
  cases colon bs <;> simp

theorem pushMember_eq_ok_iff {key : String} {acc acc' : List (String × Json)} :
    pushMember value acc key bs = .ok (acc', rest) ↔
      ∃ v r, colon bs = .ok r ∧ value r = .ok (v, rest) ∧ (key, v) :: acc = acc' := by
  simp only [pushMember, mapResult_eq_ok_iff, memberValue_eq_ok_iff, ← exists_and_right, and_assoc]

theorem putMember_eq_ok_iff {key : String} {ms ms' : Members} :
    putMember value ms key bs = .ok (ms', rest) ↔
      ∃ v r, colon bs = .ok r ∧ value r = .ok (v, rest) ∧ Named.insert key v ms = ms' := by
  simp only [putMember, mapResult_eq_ok_iff, memberValue_eq_ok_iff, ← exists_and_right, and_assoc]

/-- What stands at the start of a value: a word or a number, a string, or an opening bracket. -/
inductive Begun (list object : Octets → Reading Json) (bs : Octets) : Json → Octets → Prop
  | plain {v : Json} {rest : Octets} (hz : v.depth = 0) (hne : ∀ s, v ≠ .string s)
      (hread : ∀ l o, anyValue l o bs = .ok (v, rest)) : Begun list object bs v rest
  | string {s : String} {r rest : Octets} (hs : skipBlanks bs = octet '"' :: r)
      (hread : Scan.string r = .ok (s, rest)) : Begun list object bs (.string s) rest
  | list {v : Json} {r rest : Octets} (hs : skipBlanks bs = octet '[' :: r)
      (hread : list r = .ok (v, rest)) : Begun list object bs v rest
  | object {v : Json} {r rest : Octets} (hs : skipBlanks bs = octet '\x7b' :: r)
      (hread : object r = .ok (v, rest)) : Begun list object bs v rest

theorem anyValue_begun {list object : Octets → Reading Json} {v : Json}
    (h : anyValue list object bs = .ok (v, rest)) : Begun list object bs v rest := by
  cases hs : skipBlanks bs with
  | nil =>
    rw [anyValue, hs] at h
    cases h
  | cons b r =>
    have hword : ∀ {cs : List Char} {w : Json}, (word cs r).map (w, ·) = .ok (v, rest) →
        w.depth = 0 → (∀ s, w ≠ .string s) → (∀ l o, anyValue l o bs = .ok (v, rest)) →
        Begun list object bs v rest := by
      intro cs w hw hz hne hread
      obtain ⟨_, _, heq⟩ := exists_of_map_ok hw
      obtain ⟨rfl, -⟩ := Prod.mk.inj heq
      exact .plain hz hne hread
    have hnumber : ∀ {x : Reading Number}, mapResult .number x = .ok (v, rest) →
        (∀ l o, anyValue l o bs = .ok (v, rest)) → Begun list object bs v rest := by
      intro x hx hread
      obtain ⟨n, -, rfl⟩ := mapResult_eq_ok_iff.mp hx
      exact .plain (by rw [Json.depth]) (fun _ h => by cases h) hread
    -- the first octet decides
    simp only [anyValue, hs] at h hword hnumber
    by_cases h₁ : b = octet 'n'
    · simp only [if_pos h₁] at h hword
      exact hword h (by rw [Json.depth]) (fun _ h => by cases h) fun _ _ => h
    · simp only [if_neg h₁] at h hword hnumber
      by_cases h₂ : b = octet 't'
      · simp only [if_pos h₂] at h hword
        exact hword h (by rw [Json.depth]) (fun _ h => by cases h) fun _ _ => h
      · simp only [if_neg h₂] at h hword hnumber
        by_cases h₃ : b = octet 'f'
        · simp only [if_pos h₃] at h hword
          exact hword h (by rw [Json.depth]) (fun _ h => by cases h) fun _ _ => h
        · simp only [if_neg h₃] at h hnumber
          by_cases h₄ : b = octet '-'
          · simp only [if_pos h₄] at h hnumber
            exact hnumber h fun _ _ => h
          · simp only [if_neg h₄] at h hnumber
            by_cases h₅ : isDigit b = true
            · simp only [if_pos h₅] at h hnumber
              exact hnumber h fun _ _ => h
            · simp only [if_neg h₅] at h
              by_cases h₆ : b = octet '"'
              · rw [if_pos h₆] at h
                obtain ⟨s, hread, rfl⟩ := mapResult_eq_ok_iff.mp h
                exact .string (h₆ ▸ hs) hread
              · rw [if_neg h₆] at h
                by_cases h₇ : b = octet '['
                · rw [if_pos h₇] at h
                  exact .list (h₇ ▸ hs) h
                · rw [if_neg h₇] at h
                  by_cases h₈ : b = octet '\x7b'
                  · rw [if_pos h₈] at h
                    exact .object (h₈ ▸ hs) h
                  · rw [if_neg h₈] at h
                    cases h

variable {list object : Octets → Reading Json} {r : Octets}

theorem anyValue_of_quote (hs : skipBlanks bs = octet '"' :: r) :
    anyValue list object bs = mapResult .string (string r) := by
  rw [anyValue, hs]
  rfl

theorem anyValue_of_bracket (hs : skipBlanks bs = octet '[' :: r) :
    anyValue list object bs = list r := by
  rw [anyValue, hs]
  rfl

theorem anyValue_of_brace (hs : skipBlanks bs = octet '\x7b' :: r) :
    anyValue list object bs = object r := by
  rw [anyValue, hs]
  rfl

end Items

end Scan

end AuditRelay
