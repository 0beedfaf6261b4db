import AuditRelay.Proofs.Json.Bounds

/-!
# AuditRelay.Proofs.Json.Resolve — which values resolve to themselves

A tree is literal if none of its objects has the reserved name first. Among values, whose members
are in order, these are the ones that resolve to themselves (`Json.resolve_eq_self_iff`): an object
with the reserved name first is refused or stands for a value with shorter strings.
-/

namespace AuditRelay

namespace Json

mutual

/-- No object of the tree stands for an embedded text. -/
def IsLiteral : Json → Prop
  | .array items => AllLiteral items
  | .object members => embedded? members = none ∧ MembersLiteral members
  | .null | .bool _ | .number _ | .string _ => True

def AllLiteral : List Json → Prop
  | [] => True
  | v :: vs => v.IsLiteral ∧ AllLiteral vs

def MembersLiteral : List (String × Json) → Prop
  | [] => True
  | (_, v) :: ms => v.IsLiteral ∧ MembersLiteral ms

end

theorem membersOrdered_iff {ms : List (String × Json)} :
    MembersOrdered ms ↔ ∀ m ∈ ms, m.2.IsOrdered := by
  induction ms with
  | nil => simp [MembersOrdered]
  | cons m ms ih => rw [MembersOrdered, ih, List.forall_mem_cons]

/-! ## The first element or member -/

theorem exists_of_resolveItems_cons {v : Json} {vs us : List Json}
    (h : resolveItems (v :: vs) = .ok us) :
    ∃ w ws, resolve v = .ok w ∧ resolveItems vs = .ok ws ∧ us = w :: ws := by
  rw [resolveItems] at h
  split at h
  · cases h
  · rename_i w hw
    obtain ⟨ws, hws, rfl⟩ := Scan.exists_of_map_ok h
    exact ⟨w, ws, hw, hws, rfl⟩

theorem exists_of_resolveMembers_cons {k : String} {v : Json} {ms : List (String × Json)}
    {acc out : Members} (h : resolveMembers acc ((k, v) :: ms) = .ok out) :
    ∃ w, resolve v = .ok w ∧ resolveMembers (Named.insert k w acc) ms = .ok out := by
  rw [resolveMembers] at h
  split at h
  · cases h
  · rename_i w hw
    exact ⟨w, hw, h⟩

/-! ## What resolving gives is in order -/

/-- Members in order, with values in order. -/
def FieldsOrdered (ms : Members) : Prop :=
  Named.IsOrdered ms ∧ MembersOrdered ms

theorem FieldsOrdered.insert {ms : Members} (h : FieldsOrdered ms) (key : String) {v : Json}
    (hv : v.IsOrdered) : FieldsOrdered (Named.insert key v ms) := by
  refine ⟨h.1.insert key v, membersOrdered_iff.mpr fun m hm => ?_⟩
  rcases Named.mem_insert hm with rfl | hm
  · exact hv
  · exact membersOrdered_iff.mp h.2 m hm

theorem ofEmbedded_ordered {size : Nat} {v w : Json} (h : ofEmbedded size v = .ok w) :
    w.IsOrdered := by
  unfold ofEmbedded at h
  split at h
  · split at h
    · cases h
    · rename_i u hu
      split at h
      · rw [← Except.ok.inj h]
        exact (ofText_bounded hu).ordered
      · cases h
  · cases h

mutual

theorem resolve_ordered : (v : Json) → ∀ {w : Json}, resolve v = .ok w → w.IsOrdered
  | .array items, w, h => by
    rw [resolve] at h
    obtain ⟨ws, hws, rfl⟩ := Scan.exists_of_map_ok h
    rw [IsOrdered]
    exact resolveItems_ordered items hws
  | .object ms, w, h => by
    rw [resolve] at h
    split at h
    · exact ofEmbedded_ordered h
    · obtain ⟨out, hout, rfl⟩ := Scan.exists_of_map_ok h
      rw [IsOrdered]
      exact resolveMembers_ordered ms ⟨List.Pairwise.nil, trivial⟩ hout
  | .null, w, h | .bool _, w, h | .number _, w, h | .string _, w, h => by
    rw [resolve] at h
    rw [← Except.ok.inj h]
    trivial

theorem resolveItems_ordered :
    (vs : List Json) → ∀ {ws : List Json}, resolveItems vs = .ok ws → AllOrdered ws
  | [], ws, h => by
    rw [resolveItems] at h
    rw [← Except.ok.inj h]
    trivial
  | v :: vs, ws, h => by
    obtain ⟨w, ws, hw, hws, rfl⟩ := exists_of_resolveItems_cons h
    rw [AllOrdered]
    exact ⟨resolve_ordered v hw, resolveItems_ordered vs hws⟩

theorem resolveMembers_ordered :
    (ms : List (String × Json)) → ∀ {acc out : Members}, FieldsOrdered acc →
      resolveMembers acc ms = .ok out → FieldsOrdered out
  | [], acc, out, hacc, h => by
    rw [resolveMembers] at h
    rw [← Except.ok.inj h]
    exact hacc
  | (k, v) :: ms, acc, out, hacc, h => by
    obtain ⟨w, hw, hout⟩ := exists_of_resolveMembers_cons h
    exact resolveMembers_ordered ms (hacc.insert k (resolve_ordered v hw)) hout

end

/-- Resolving brings no name that was not there. -/
theorem mem_of_resolveMembers {ms : List (String × Json)} {acc out : Members}
    (h : resolveMembers acc ms = .ok out) {p : String × Json} (hp : p ∈ out) :
    p ∈ acc ∨ ∃ m ∈ ms, m.1 = p.1 := by
  induction ms generalizing acc with
  | nil =>
    rw [resolveMembers] at h
    rw [← Except.ok.inj h] at hp
    exact .inl hp
  | cons m ms ih =>
    obtain ⟨k, v⟩ := m
    obtain ⟨w, -, hout⟩ := exists_of_resolveMembers_cons h
    rcases ih hout with hacc | ⟨m, hm, hname⟩
    · rcases Named.mem_insert hacc with rfl | hacc
      · exact .inr ⟨(k, v), List.mem_cons_self, rfl⟩
      · exact .inl hacc
    · exact .inr ⟨m, List.mem_cons_of_mem _ hm, hname⟩

/-! ## Literal values -/

/-- Members whose names come after those before them are put behind these. -/
theorem resolveMembers_cons_ok {k : String} {v w : Json} {acc : Members}
    {ms : List (String × Json)} (hw : resolve v = .ok w) (hlt : ∀ a ∈ acc, a.1 < k) :
    resolveMembers acc ((k, v) :: ms) = resolveMembers (acc ++ [(k, w)]) ms := by
  rw [resolveMembers, hw]
  simp only
  rw [Named.insert_of_forall_lt w hlt]

theorem exists_of_resolveMembers_behind {k : String} {v : Json} {acc out : Members}
    {ms : List (String × Json)} (hlt : ∀ a ∈ acc, a.1 < k)
    (h : resolveMembers acc ((k, v) :: ms) = .ok out) :
    ∃ w, resolve v = .ok w ∧ resolveMembers (acc ++ [(k, w)]) ms = .ok out := by
  obtain ⟨w, hw, hout⟩ := exists_of_resolveMembers_cons h
  rw [Named.insert_of_forall_lt w hlt] at hout
  exact ⟨w, hw, hout⟩

/-- Putting the first of the members behind those already put leaves all others behind them. -/
theorem lt_of_mem_concat {acc ms : List (String × Json)} {k : String} {v : Json}
    (hlt : ∀ a ∈ acc, ∀ m ∈ (k, v) :: ms, a.1 < m.1) (hbehind : ∀ m ∈ ms, k < m.1) (w : Json) :
    ∀ a ∈ acc ++ [(k, w)], ∀ m ∈ ms, a.1 < m.1 := by
  intro a ha m hm
  rcases List.mem_append.mp ha with ha | ha
  · exact hlt a ha m (List.mem_cons_of_mem _ hm)
  · rw [List.mem_singleton.mp ha]
    exact hbehind m hm

/-- What has been put stays in front, if the other names come after it. -/
theorem prefix_of_resolveMembers {ms : List (String × Json)} {acc out : Members}
    (ho : Named.IsOrdered ms) (hlt : ∀ a ∈ acc, ∀ m ∈ ms, a.1 < m.1)
    (h : resolveMembers acc ms = .ok out) : acc <+: out := by
  induction ms generalizing acc with
  | nil =>
    rw [resolveMembers] at h
    exact Except.ok.inj h ▸ List.prefix_rfl
  | cons m ms ih =>
    obtain ⟨k, v⟩ := m
    obtain ⟨hbehind, ho'⟩ := List.pairwise_cons.mp ho
    have hk : ∀ a ∈ acc, a.1 < k := fun a ha => hlt a ha (k, v) List.mem_cons_self
    obtain ⟨w, -, hout⟩ := exists_of_resolveMembers_behind hk h
    exact (List.prefix_append _ _).trans (ih ho' (lt_of_mem_concat hlt hbehind w) hout)

/-- An object with the reserved name first does not resolve to itself: the embedded text is longer
than every string of its value. -/
theorem ofEmbedded_ne_self {ms : List (String × Json)} {v : Json} (h : embedded? ms = some v) :
    ofEmbedded ms.length v ≠ .ok (.object ms) := by
  intro hself
  unfold ofEmbedded at hself
  split at hself
  · rename_i s
    split at hself
    · cases hself
    · rename_i u hu
      split at hself
      · rename_i hsize
        have hobject := Except.ok.inj hself
        have hshort := (ofText_bounded hu).short
        obtain ⟨m, rfl⟩ := List.length_eq_one_iff.mp hsize
        obtain ⟨k, w⟩ := m
        rw [embedded?] at h
        by_cases hk : k = embeddedKey
        · rw [if_pos hk] at h
          rw [hobject, Option.some.inj h, longest, longestMember, longest] at hshort
          exact absurd (Nat.le_max_left _ _) (Nat.not_le.mpr hshort)
        · rw [if_neg hk] at h
          cases h
      · cases hself
  · cases hself

mutual

theorem resolve_of_literal : (v : Json) → v.IsOrdered → v.IsLiteral → resolve v = .ok v
  | .array items, ho, hl => by
    rw [IsOrdered] at ho
    rw [IsLiteral] at hl
    rw [resolve, resolveItems_of_literal items ho hl]
    rfl
  | .object ms, ho, hl => by
    rw [IsOrdered] at ho
    rw [IsLiteral] at hl
    have hms := resolveMembers_of_literal ms [] ho.1 ho.2 hl.2 (by simp)
    rw [List.nil_append] at hms
    rw [resolve, hl.1, hms]
    rfl
  | .null, _, _ | .bool _, _, _ | .number _, _, _ | .string _, _, _ => by
    rw [resolve]

theorem resolveItems_of_literal :
    (vs : List Json) → AllOrdered vs → AllLiteral vs → resolveItems vs = .ok vs
  | [], _, _ => by rw [resolveItems]
  | v :: vs, ho, hl => by
    rw [AllOrdered] at ho
    rw [AllLiteral] at hl
    rw [resolveItems, resolve_of_literal v ho.1 hl.1]
    simp only
    rw [resolveItems_of_literal vs ho.2 hl.2]
    rfl

theorem resolveMembers_of_literal :
    (ms : List (String × Json)) → (acc : Members) → Named.IsOrdered ms → MembersOrdered ms →
      MembersLiteral ms → (∀ a ∈ acc, ∀ m ∈ ms, a.1 < m.1) →
      resolveMembers acc ms = .ok (acc ++ ms)
  | [], acc, _, _, _, _ => by rw [resolveMembers, List.append_nil]
  | (k, v) :: ms, acc, hn, ho, hl, hlt => by
    rw [MembersOrdered] at ho
    rw [MembersLiteral] at hl
    obtain ⟨hbehind, hn'⟩ := List.pairwise_cons.mp hn
    have hk : ∀ a ∈ acc, a.1 < k := fun a ha => hlt a ha (k, v) List.mem_cons_self
    have hlt' := lt_of_mem_concat hlt hbehind v
    rw [resolveMembers_cons_ok (resolve_of_literal v ho.1 hl.1) hk,
      resolveMembers_of_literal ms _ hn' ho.2 hl.2 hlt', List.append_assoc, List.singleton_append]

end

mutual

theorem literal_of_resolve : (v : Json) → v.IsOrdered → resolve v = .ok v → v.IsLiteral
  | .array items, ho, h => by
    rw [IsOrdered] at ho
    rw [resolve] at h
    obtain ⟨ws, hws, heq⟩ := Scan.exists_of_map_ok h
    injection heq with heq
    subst heq
    rw [IsLiteral]
    exact literal_of_resolveItems ws ho hws
  | .object ms, ho, h => by
    rw [IsOrdered] at ho
    rw [resolve] at h
    rw [IsLiteral]
    split at h
    · rename_i v hv
      exact absurd h (ofEmbedded_ne_self hv)
    · rename_i hnone
      obtain ⟨out, hout, heq⟩ := Scan.exists_of_map_ok h
      injection heq with heq
      subst heq
      exact ⟨hnone, literal_of_resolveMembers out [] ho.1 ho.2 (by simp) hout⟩
  | .null, _, _ | .bool _, _, _ | .number _, _, _ | .string _, _, _ => by
    rw [IsLiteral]
    trivial

theorem literal_of_resolveItems :
    (vs : List Json) → AllOrdered vs → resolveItems vs = .ok vs → AllLiteral vs
  | [], _, _ => by
    rw [AllLiteral]
    trivial
  | v :: vs, ho, h => by
    rw [AllOrdered] at ho
    rw [AllLiteral]
    obtain ⟨w, ws, hw, hws, heq⟩ := exists_of_resolveItems_cons h
    obtain ⟨hwv, hwvs⟩ := List.cons.inj heq
    exact ⟨literal_of_resolve v ho.1 (hwv ▸ hw), literal_of_resolveItems vs ho.2 (hwvs ▸ hws)⟩

theorem literal_of_resolveMembers :
    (ms : List (String × Json)) → (acc : Members) → Named.IsOrdered ms → MembersOrdered ms →
      (∀ a ∈ acc, ∀ m ∈ ms, a.1 < m.1) → resolveMembers acc ms = .ok (acc ++ ms) →
      MembersLiteral ms
  | [], _, _, _, _, _ => by
    rw [MembersLiteral]
    trivial
  | (k, v) :: ms, acc, hn, ho, hlt, h => by
    rw [MembersOrdered] at ho
    rw [MembersLiteral]
    obtain ⟨hbehind, hn'⟩ := List.pairwise_cons.mp hn
    have hk : ∀ a ∈ acc, a.1 < k := fun a ha => hlt a ha (k, v) List.mem_cons_self
    obtain ⟨w, hw, hout⟩ := exists_of_resolveMembers_behind hk h
    have hlt' := lt_of_mem_concat hlt hbehind w
    -- the value put last is still there, so it is the one that the result has
    obtain ⟨tail, htail⟩ := prefix_of_resolveMembers hn' hlt' hout
    rw [List.append_assoc, List.append_cancel_left_eq, List.singleton_append] at htail
    obtain ⟨hpair, -⟩ := List.cons.inj htail
    have hwv : w = v := (Prod.mk.inj hpair).2
    rw [hwv] at hw hout hlt'
    rw [List.append_cons acc (k, v) ms] at hout
    exact ⟨literal_of_resolve v ho.1 hw, literal_of_resolveMembers ms _ hn' ho.2 hlt' hout⟩

end

theorem resolve_eq_self_iff {v : Json} (ho : v.IsOrdered) : resolve v = .ok v ↔ v.IsLiteral :=
  ⟨literal_of_resolve v ho, resolve_of_literal v ho⟩

theorem resolveMembers_eq_self_iff {ms : Members} (ho : FieldsOrdered ms) :
    resolveMembers [] ms = .ok ms ↔ MembersLiteral ms := by
  constructor
  · intro h
    exact literal_of_resolveMembers ms [] ho.1 ho.2 (by simp) h
  · intro hl
    exact resolveMembers_of_literal ms [] ho.1 ho.2 hl (by simp)

end Json

end AuditRelay
