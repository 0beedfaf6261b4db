import AuditRelay.Proofs.Json.Loops
import AuditRelay.Proofs.Json.Resolve

/-!
# AuditRelay.Proofs.Json.Trees — a text has one tree, and its value is that of the tree

`Json.treeOf` is the tree that a text holds. Whatever has a value has a tree
(`Scan.exists_tree_of_valueBy`). If no member of the tree has the reserved name, the value that is read
from the text is the one that the tree resolves to (`Json.ofOctets_eq_ok_iff`), and it is literal.
Some of the members of an object can be resolved without the others (`Json.resolveMembers_filter`).
-/

namespace AuditRelay

/-! ## The names in a tree -/

namespace Json

mutual

/-- The names of all members in the tree. -/
def names : Json → List String
  | .array items => namesOfItems items
  | .object members => namesOfMembers members
  | .null | .bool _ | .number _ | .string _ => []

def namesOfItems : List Json → List String
  | [] => []
  | v :: vs => v.names ++ namesOfItems vs

def namesOfMembers : List (String × Json) → List String
  | [] => []
  | (k, v) :: ms => k :: (v.names ++ namesOfMembers ms)

end

theorem mem_namesOfItems {name : String} {vs : List Json} :
    name ∈ namesOfItems vs ↔ ∃ v ∈ vs, name ∈ v.names := by
  induction vs with
  | nil => simp [namesOfItems]
  | cons v vs ih => rw [namesOfItems, List.mem_append, ih, List.exists_mem_cons_iff]

theorem mem_namesOfMembers {name : String} {ms : List (String × Json)} :
    name ∈ namesOfMembers ms ↔ ∃ m ∈ ms, m.1 = name ∨ name ∈ m.2.names := by
  induction ms with
  | nil => simp [namesOfMembers]
  | cons m ms ih =>
    rw [namesOfMembers, List.mem_cons, List.mem_append, ih, List.exists_mem_cons_iff, or_assoc,
      eq_comm]

/-! ## Resolving one more element or member -/

theorem resolveItems_concat {v w : Json} (hv : resolve v = .ok w) {vs ws : List Json}
    (h : resolveItems vs = .ok ws) : resolveItems (vs ++ [v]) = .ok (ws ++ [w]) := by
  induction vs generalizing ws with
  | nil =>
    rw [resolveItems] at h
    rw [← Except.ok.inj h, List.nil_append, resolveItems, hv]
    simp only
    rw [resolveItems]
    rfl
  | cons u vs ih =>
    obtain ⟨x, ws, hx, hws, rfl⟩ := exists_of_resolveItems_cons h
    rw [List.cons_append, resolveItems, hx]
    simp only [ih hws]
    rfl

theorem resolveMembers_concat (key : String) {v w : Json} (hv : resolve v = .ok w)
    {acc out : Members} {ms : List (String × Json)} (h : resolveMembers acc ms = .ok out) :
    resolveMembers acc (ms ++ [(key, v)]) = .ok (Named.insert key w out) := by
  induction ms generalizing acc with
  | nil =>
    rw [resolveMembers] at h
    rw [← Except.ok.inj h, List.nil_append, resolveMembers, hv]
    simp only
    rw [resolveMembers]
  | cons m ms ih =>
    obtain ⟨k, u⟩ := m
    obtain ⟨x, hx, hout⟩ := exists_of_resolveMembers_cons h
    rw [List.cons_append, resolveMembers, hx]
    exact ih hout

/-- A tree without containers is its own value. -/
theorem resolve_of_depth_eq_zero {v : Json} (h : v.depth = 0) : resolve v = .ok v := by
  cases v with
  | array items =>
    rw [depth] at h
    exact absurd h (Nat.succ_ne_zero _)
  | object ms =>
    rw [depth] at h
    exact absurd h (Nat.succ_ne_zero _)
  | null | bool _ | number _ | string _ => rw [resolve]

/-- Without the reserved name an object stands for its members. -/
theorem embedded?_eq_none {ms : List (String × Json)} (h : embeddedKey ∉ namesOfMembers ms) :
    embedded? ms = none := by
  cases ms with
  | nil => rfl
  | cons m ms =>
    rw [embedded?, if_neg]
    intro hk
    exact h (mem_namesOfMembers.mpr ⟨m, List.mem_cons_self, .inl hk⟩)

end Json

namespace Scan

/-! ## A text that has a value has a tree -/

section Trees

variable {whole : Octets → Except JsonFault Json} {d : Nat} {bs rest : Octets}

/-- A value that is asked to be a string is one. -/
theorem tree_string_iff {expected s : String} :
    tree d bs = .ok (.string s, rest) ↔ stringValue expected bs = .ok (s, rest) := by
  constructor
  · intro h
    -- neither a list nor an object is read as a string
    have hbegun : ∃ l o, Begun l o bs (.string s) rest ∧
        (∀ r, l r ≠ .ok (.string s, rest)) ∧ ∀ r, o r ≠ .ok (.string s, rest) := by
      cases d with
      | zero => exact ⟨_, _, anyValue_begun h, by simp, by simp⟩
      | succ d =>
        refine ⟨_, _, anyValue_begun h, fun r hl => ?_, fun r ho => ?_⟩
        · obtain ⟨_, _, heq⟩ := mapResult_eq_ok_iff.mp hl
          cases heq
        · obtain ⟨_, _, heq⟩ := mapResult_eq_ok_iff.mp ho
          cases heq
    obtain ⟨l, o, hbegun, hlist, hobject⟩ := hbegun
    cases hbegun with
    | plain _ hne _ => exact absurd rfl (hne s)
    | string hs hread =>
      rw [stringValue, hs]
      exact hread
    | list _ hread => exact absurd hread (hlist _)
    | object _ hread => exact absurd hread (hobject _)
  · intro h
    unfold stringValue at h
    split at h
    · cases h
    · rename_i b r hs
      split at h
      · rename_i hb
        subst hb
        cases d with
        | zero => rw [tree, anyValue_of_quote hs, h]; rfl
        | succ d => rw [tree, anyValue_of_quote hs, h]; rfl
      · exact absurd h refuse_ne_ok

theorem tree_succ_object_iff {ms : List (String × Json)} :
    tree (d + 1) bs = .ok (.object ms, rest) ↔
      ∃ r, skipBlanks bs = octet '\x7b' :: r ∧
        members (pushMember (tree d)) true [] r (r.length + 1) = .ok (ms.reverse, rest) := by
  constructor
  · intro h
    cases anyValue_begun h with
    | plain hz =>
      rw [Json.depth] at hz
      exact absurd hz (Nat.succ_ne_zero _)
    | list _ hread =>
      obtain ⟨_, _, heq⟩ := mapResult_eq_ok_iff.mp hread
      cases heq
    | object hs hread =>
      obtain ⟨acc, hms, heq⟩ := mapResult_eq_ok_iff.mp hread
      injection heq with heq
      subst heq
      exact ⟨_, hs, by rw [List.reverse_reverse]; exact hms⟩
  · rintro ⟨r, hs, hms⟩
    rw [tree, anyValue_of_brace hs, hms]
    simp [mapResult]

/-- An object that is read as an embedded text has one member. -/
theorem exists_members_of_embedded {v : Json} {start : Octets}
    (hstart : embeddedStart? bs = some start) (h : embeddedValue whole start = .ok (v, rest)) :
    ∃ ms, members (pushMember (tree d)) true [] bs (bs.length + 1) = .ok (ms, rest) := by
  obtain ⟨r, hs, hkey⟩ := exists_of_embeddedStart? hstart
  obtain ⟨r₁, s, rest₂, hcolon, hstring, -, hclose⟩ := exists_of_embeddedValue h
  -- its name and its string are a member, and the object ends behind it
  have hnext : nextStart? (octet '\x7d') true bs = some (octet '"' :: r) := by
    rw [nextStart?, hs]
    rfl
  have hmember : member (pushMember (tree d)) [] (octet '"' :: r) =
      .ok ([(Json.embeddedKey, .string s)], rest₂) :=
    member_eq_ok_iff.mpr ⟨r, _, _, rfl, hkey,
      pushMember_eq_ok_iff.mpr ⟨_, _, hcolon, tree_string_iff.mpr hstring, rfl⟩⟩
  obtain ⟨n, hn⟩ : ∃ n, bs.length = n + 1 :=
    Nat.exists_eq_add_one.mpr (Nat.zero_lt_of_lt (length_of_skipBlanks hs))
  rw [hn]
  exact ⟨_, members_eq_ok_iff.mpr (.next hnext hmember (.close (skipBlanks_of_closeObject hclose)))⟩

/-- At this depth whatever has a value has a tree. -/
def Plants (whole : Octets → Except JsonFault Json) (d : Nat) : Prop :=
  ∀ {bs v rest}, valueBy whole d bs = .ok (v, rest) → ∃ t, tree d bs = .ok (t, rest)

theorem Plants.items (h : Plants whole d) :
    Follows (pushItem (valueBy whole d)) (pushItem (tree d)) (fun _ => True) fun _ _ => True := by
  constructor
  · exact fun _ _ => trivial
  · intro _ _ _ _ _ _ _ hitem
    obtain ⟨v, hv, -⟩ := pushItem_eq_ok_iff.mp hitem
    obtain ⟨t, ht⟩ := h hv
    exact ⟨_, pushItem_eq_ok_iff.mpr ⟨t, ht, rfl⟩, trivial⟩

theorem Plants.members (h : Plants whole d) (key : String) :
    Follows (fun ms bs => putMember (valueBy whole d) ms key bs)
      (fun ms bs => pushMember (tree d) ms key bs) (fun _ => True) fun _ _ => True := by
  constructor
  · exact fun _ _ => trivial
  · intro _ _ _ _ _ _ _ hmember
    obtain ⟨v, r, hcolon, hv, -⟩ := putMember_eq_ok_iff.mp hmember
    obtain ⟨t, ht⟩ := h hv
    exact ⟨_, pushMember_eq_ok_iff.mpr ⟨t, r, hcolon, ht, rfl⟩, trivial⟩

/-- Whatever has a value has a tree. -/
theorem exists_tree_of_valueBy {v : Json} (h : valueBy whole d bs = .ok (v, rest)) :
    ∃ t, tree d bs = .ok (t, rest) := by
  induction d generalizing bs v rest with
  | zero => exact ⟨v, h⟩
  | succ d ih =>
    have hplants : Plants whole d := fun h => ih h
    cases anyValue_begun h with
    | plain _ _ hread => exact ⟨v, hread _ _⟩
    | @string s _ _ hs hread =>
      refine ⟨.string s, ?_⟩
      rw [tree, anyValue_of_quote hs, hread]
      rfl
    | list hs hread =>
      obtain ⟨vs, hvs, rfl⟩ := mapResult_eq_ok_iff.mp hread
      obtain ⟨ts, hts, -⟩ := hplants.items.elements hvs trivial trivial
      refine ⟨.array ts.reverse, ?_⟩
      rw [tree, anyValue_of_bracket hs, listOf, hts]
      rfl
    | @object _ r _ hs hread =>
      have hmembers : ∃ ms, members (pushMember (tree d)) true [] r (r.length + 1) =
          .ok (ms, rest) := by
        split at hread
        · rename_i start hstart
          exact exists_members_of_embedded hstart hread
        · obtain ⟨ms, hms, -⟩ := mapResult_eq_ok_iff.mp hread
          obtain ⟨ms', hms', -⟩ := Follows.members hplants.members hms trivial trivial
          exact ⟨ms', hms'⟩
      obtain ⟨ms, hms⟩ := hmembers
      refine ⟨.object ms.reverse, tree_succ_object_iff.mpr ⟨r, hs, ?_⟩⟩
      rw [List.reverse_reverse]
      exact hms

theorem mem_of_rounds {closer : UInt8} {value : Octets → Reading Json} {first : Bool} {n : Nat}
    {ms ms' : List (String × Json)}
    (h : Rounds closer (member (pushMember value)) first n ms bs ms' rest) {m : String × Json}
    (hm : m ∈ ms) : m ∈ ms' := by
  induction h with
  | close _ => exact hm
  | next _ hitem _ ih =>
    obtain ⟨r, key, rest₁, -, -, hpush⟩ := member_eq_ok_iff.mp hitem
    obtain ⟨v, r₁, -, -, rfl⟩ := pushMember_eq_ok_iff.mp hpush
    exact ih (List.mem_cons_of_mem _ hm)

/-- An object whose tree has not the reserved name does not begin with it. -/
theorem embeddedStart?_eq_none {value : Octets → Reading Json} {n : Nat}
    {ms : List (String × Json)} (h : members (pushMember value) true [] bs n = .ok (ms, rest))
    (hms : ∀ m ∈ ms, m.1 ≠ Json.embeddedKey) : embeddedStart? bs = none := by
  cases members_eq_ok_iff.mp h with
  | close hclose =>
    rw [embeddedStart?, hclose]
    rfl
  | @next _ _ _ _ _ _ start _ _ hstart hitem hrounds =>
    obtain ⟨r, key, rest₁, rfl, hkey, hpush⟩ := member_eq_ok_iff.mp hitem
    obtain ⟨v, r₁, -, -, rfl⟩ := pushMember_eq_ok_iff.mp hpush
    have hname : key ≠ Json.embeddedKey := hms _ (mem_of_rounds hrounds List.mem_cons_self)
    have hs : skipBlanks bs = octet '"' :: r := by
      unfold nextStart? at hstart
      split at hstart
      · cases hstart
      · rename_i hs
        split at hstart
        · cases hstart
        · rw [hs]
          exact Option.some.inj hstart
    rw [embeddedStart?, hs]
    simp only [if_true, hkey, if_neg hname]

/-- At this depth a tree without the reserved name resolves to the value that is read. -/
def Resolves (whole : Octets → Except JsonFault Json) (d : Nat) : Prop :=
  ∀ {bs t rest}, tree d bs = .ok (t, rest) → Json.embeddedKey ∉ t.names →
    ∃ v, t.resolve = .ok v ∧ valueBy whole d bs = .ok (v, rest)

theorem Resolves.items (h : Resolves whole d) :
    Follows (pushItem (tree d)) (pushItem (valueBy whole d))
      (fun ts => ∀ t ∈ ts, Json.embeddedKey ∉ t.names)
      fun ts vs => Json.resolveItems ts.reverse = .ok vs.reverse := by
  constructor
  · intro ts bs ts' rest hitem hw t ht
    obtain ⟨u, -, rfl⟩ := pushItem_eq_ok_iff.mp hitem
    exact hw t (List.mem_cons_of_mem _ ht)
  · intro ts vs bs ts' rest ha hw hitem
    obtain ⟨t, ht, rfl⟩ := pushItem_eq_ok_iff.mp hitem
    obtain ⟨v, hresolve, hv⟩ := h ht (hw t List.mem_cons_self)
    refine ⟨_, pushItem_eq_ok_iff.mpr ⟨v, hv, rfl⟩, ?_⟩
    rw [List.reverse_cons, List.reverse_cons]
    exact Json.resolveItems_concat hresolve ha

theorem Resolves.members (h : Resolves whole d) (key : String) :
    Follows (fun ms bs => pushMember (tree d) ms key bs)
      (fun ms bs => putMember (valueBy whole d) ms key bs)
      (fun ms => ∀ m ∈ ms, m.1 ≠ Json.embeddedKey ∧ Json.embeddedKey ∉ m.2.names)
      fun ms out => Json.resolveMembers [] ms.reverse = .ok out := by
  constructor
  · intro ms bs ms' rest hmember hw m hm
    obtain ⟨u, r, -, -, rfl⟩ := pushMember_eq_ok_iff.mp hmember
    exact hw m (List.mem_cons_of_mem _ hm)
  · intro ms out bs ms' rest ha hw hmember
    obtain ⟨t, r, hcolon, ht, rfl⟩ := pushMember_eq_ok_iff.mp hmember
    obtain ⟨v, hresolve, hv⟩ := h ht (hw _ List.mem_cons_self).2
    refine ⟨_, putMember_eq_ok_iff.mpr ⟨v, r, hcolon, hv, rfl⟩, ?_⟩
    rw [List.reverse_cons]
    exact Json.resolveMembers_concat key hresolve ha

/-- Without the reserved name, the value that is read is the one that the tree resolves to. -/
theorem exists_valueBy_of_tree {t : Json} (h : tree d bs = .ok (t, rest))
    (ht : Json.embeddedKey ∉ t.names) :
    ∃ v, t.resolve = .ok v ∧ valueBy whole d bs = .ok (v, rest) := by
  induction d generalizing bs t rest with
  | zero =>
    cases anyValue_begun h with
    | plain hz _ _ => exact ⟨t, Json.resolve_of_depth_eq_zero hz, h⟩
    | string _ _ => exact ⟨_, Json.resolve_of_depth_eq_zero (by rw [Json.depth]), h⟩
    | list _ hread => cases hread
    | object _ hread => cases hread
  | succ d ih =>
    have hresolves : Resolves whole d := fun h ht => ih h ht
    cases anyValue_begun h with
    | plain hz _ hread => exact ⟨t, Json.resolve_of_depth_eq_zero hz, hread _ _⟩
    | @string s _ _ hs hread =>
      refine ⟨_, Json.resolve_of_depth_eq_zero (by rw [Json.depth]), ?_⟩
      rw [valueBy, anyValue_of_quote hs, hread]
      rfl
    | list hs hread =>
      obtain ⟨ts, hts, rfl⟩ := mapResult_eq_ok_iff.mp hread
      have hnames : ∀ t ∈ ts, Json.embeddedKey ∉ t.names := by
        intro t hmem hkey
        rw [Json.names] at ht
        exact ht (Json.mem_namesOfItems.mpr ⟨t, List.mem_reverse.mpr hmem, hkey⟩)
      have hnil : Json.resolveItems ([] : List Json).reverse = .ok ([] : List Json).reverse := rfl
      obtain ⟨vs, hvs, hitems⟩ := hresolves.items.elements hts hnames hnil
      refine ⟨.array vs.reverse, ?_, ?_⟩
      · rw [Json.resolve, hitems]
        rfl
      · rw [valueBy, anyValue_of_bracket hs, listOf, hvs]
        rfl
    | @object _ r _ hs hread =>
      obtain ⟨ms, hms, rfl⟩ := mapResult_eq_ok_iff.mp hread
      rw [Json.names] at ht
      have hnames : ∀ m ∈ ms, m.1 ≠ Json.embeddedKey ∧ Json.embeddedKey ∉ m.2.names := by
        intro m hm
        have hmem := List.mem_reverse.mpr hm
        constructor
        · intro hname
          exact ht (Json.mem_namesOfMembers.mpr ⟨m, hmem, .inl hname⟩)
        · intro hkey
          exact ht (Json.mem_namesOfMembers.mpr ⟨m, hmem, .inr hkey⟩)
      have hnil : Json.resolveMembers [] ([] : List (String × Json)).reverse = .ok [] := rfl
      obtain ⟨out, hout, hmembers⟩ := Follows.members hresolves.members hms hnames hnil
      refine ⟨.object out, ?_, ?_⟩
      · rw [Json.resolve, Json.embedded?_eq_none ht]
        simp only
        rw [hmembers]
        rfl
      · rw [valueBy, anyValue_of_brace hs,
          embeddedStart?_eq_none hms fun m hm => (hnames m hm).1, hout]
        rfl

theorem complete_eq_ok_iff {α : Type} {x : Reading α} {a : α} :
    complete x = .ok a ↔ ∃ rest, x = .ok (a, rest) ∧ skipBlanks rest = [] := by
  unfold complete
  cases x with
  | error f => simp
  | ok p =>
    by_cases hp : skipBlanks p.2 = []
    · simp [hp, Prod.ext_iff]
    · simp [hp, Prod.ext_iff]

end Trees

end Scan

namespace Json

/-- The tree that a text holds. -/
def treeOf (bs : Octets) : Except JsonFault Json :=
  Scan.complete (Scan.tree maxDepth bs)

/-- No member in the text, however deep it stands, has the reserved name. -/
def IsOrdinary (bs : Octets) : Prop :=
  ∀ t, treeOf bs = .ok t → embeddedKey ∉ t.names

instance (bs : Octets) : Decidable (IsOrdinary bs) :=
  match h : treeOf bs with
  | .error _ => .isTrue fun _ ht => by
    rw [h] at ht
    cases ht
  | .ok t =>
    if hnames : embeddedKey ∈ t.names then .isFalse fun hall => hall t h hnames
    else .isTrue fun _ ht => by
      rw [h] at ht
      rwa [← Except.ok.inj ht]

/-- The value of an ordinary text is that of its tree. -/
theorem ofOctets_eq_ok_iff {bs : Octets} (h : IsOrdinary bs) {v : Json} :
    ofOctets bs = .ok v ↔ ∃ t, treeOf bs = .ok t ∧ resolve t = .ok v := by
  constructor
  · intro hv
    obtain ⟨rest, hread, hrest⟩ := Scan.complete_eq_ok_iff.mp hv
    obtain ⟨t, ht⟩ := Scan.exists_tree_of_valueBy hread
    have htree : treeOf bs = .ok t := Scan.complete_eq_ok_iff.mpr ⟨rest, ht, hrest⟩
    obtain ⟨w, hw, hread'⟩ := Scan.exists_valueBy_of_tree ht (h t htree)
    have heq := hread.symm.trans hread'
    rw [(Prod.mk.inj (Except.ok.inj heq)).1]
    exact ⟨t, htree, hw⟩
  · rintro ⟨t, htree, hv⟩
    obtain ⟨rest, ht, hrest⟩ := Scan.complete_eq_ok_iff.mp htree
    obtain ⟨w, hw, hread⟩ := Scan.exists_valueBy_of_tree ht (h t htree)
    rw [Except.ok.inj (hv.symm.trans hw)]
    exact Scan.complete_eq_ok_iff.mpr ⟨rest, hread, hrest⟩

/-! ## What an ordinary tree resolves to -/

theorem membersLiteral_iff {ms : List (String × Json)} :
    MembersLiteral ms ↔ ∀ m ∈ ms, m.2.IsLiteral := by
  induction ms with
  | nil => simp [MembersLiteral]
  | cons m ms ih => rw [MembersLiteral, ih, List.forall_mem_cons]

theorem membersLiteral_insert {ms : Members} (h : MembersLiteral ms) (key : String) {v : Json}
    (hv : v.IsLiteral) : MembersLiteral (Named.insert key v ms) := by
  refine membersLiteral_iff.mpr fun m hm => ?_
  rcases Named.mem_insert hm with rfl | hm
  · exact hv
  · exact membersLiteral_iff.mp h m hm

/-- Putting the members in order puts no reserved name in front. -/
theorem embedded?_resolved {ms : List (String × Json)} {out : Members}
    (hnames : embeddedKey ∉ namesOfMembers ms) (h : resolveMembers [] ms = .ok out) :
    embedded? out = none := by
  cases out with
  | nil => rfl
  | cons p out =>
    rw [embedded?, if_neg]
    intro hp
    rcases mem_of_resolveMembers h List.mem_cons_self with hnil | ⟨m, hm, hname⟩
    · cases hnil
    · exact hnames (mem_namesOfMembers.mpr ⟨m, hm, .inl (hname.trans hp)⟩)

mutual

/-- Without the reserved name in the tree, its value is literal. -/
theorem literal_of_resolved : (t : Json) → ∀ {v : Json}, embeddedKey ∉ t.names →
    resolve t = .ok v → v.IsLiteral
  | .array items, v, hnames, h => by
    rw [names] at hnames
    rw [resolve] at h
    obtain ⟨vs, hvs, rfl⟩ := Scan.exists_of_map_ok h
    rw [IsLiteral]
    exact literal_of_resolvedItems items hnames hvs
  | .object ms, v, hnames, h => by
    rw [names] at hnames
    rw [resolve, embedded?_eq_none hnames] at h
    obtain ⟨out, hout, rfl⟩ := Scan.exists_of_map_ok h
    have hnil : MembersLiteral [] := by
      rw [MembersLiteral]
      trivial
    rw [IsLiteral]
    exact ⟨embedded?_resolved hnames hout, literal_of_resolvedMembers ms hnames hnil hout⟩
  | .null, v, _, h | .bool _, v, _, h | .number _, v, _, h | .string _, v, _, h => by
    rw [resolve] at h
    rw [← Except.ok.inj h]
    trivial

theorem literal_of_resolvedItems : (ts : List Json) → ∀ {vs : List Json},
    embeddedKey ∉ namesOfItems ts → resolveItems ts = .ok vs → AllLiteral vs
  | [], vs, _, h => by
    rw [resolveItems] at h
    rw [← Except.ok.inj h]
    trivial
  | t :: ts, vs, hnames, h => by
    rw [namesOfItems, List.mem_append, not_or] at hnames
    obtain ⟨w, ws, hw, hws, rfl⟩ := exists_of_resolveItems_cons h
    rw [AllLiteral]
    exact ⟨literal_of_resolved t hnames.1 hw, literal_of_resolvedItems ts hnames.2 hws⟩

theorem literal_of_resolvedMembers : (ms : List (String × Json)) → ∀ {acc out : Members},
    embeddedKey ∉ namesOfMembers ms → MembersLiteral acc → resolveMembers acc ms = .ok out →
    MembersLiteral out
  | [], acc, out, _, hacc, h => by
    rw [resolveMembers] at h
    rw [← Except.ok.inj h]
    exact hacc
  | (k, t) :: ms, acc, out, hnames, hacc, h => by
    rw [namesOfMembers, List.mem_cons, List.mem_append, not_or, not_or] at hnames
    obtain ⟨w, hw, hout⟩ := exists_of_resolveMembers_cons h
    have hacc' := membersLiteral_insert hacc k (literal_of_resolved t hnames.2.1 hw)
    exact literal_of_resolvedMembers ms hnames.2.2 hacc' hout

end

/-- Only an object resolves to one. -/
theorem exists_members_of_resolve {t : Json} {out : Members} (hnames : embeddedKey ∉ t.names)
    (h : resolve t = .ok (.object out)) :
    ∃ ms, t = .object ms ∧ resolveMembers [] ms = .ok out := by
  cases t with
  | array items =>
    rw [resolve] at h
    obtain ⟨_, _, heq⟩ := Scan.exists_of_map_ok h
    cases heq
  | object ms =>
    rw [names] at hnames
    rw [resolve, embedded?_eq_none hnames] at h
    obtain ⟨out', hout, heq⟩ := Scan.exists_of_map_ok h
    injection heq with heq
    exact ⟨ms, rfl, heq ▸ hout⟩
  | null | bool _ | number _ | string _ =>
    rw [resolve] at h
    cases h

/-- Only a string resolves to one. -/
theorem eq_string_of_resolve {t : Json} {s : String} (hnames : embeddedKey ∉ t.names)
    (h : resolve t = .ok (.string s)) : t = .string s := by
  cases t with
  | array items =>
    rw [resolve] at h
    obtain ⟨_, _, heq⟩ := Scan.exists_of_map_ok h
    cases heq
  | object ms =>
    rw [names] at hnames
    rw [resolve, embedded?_eq_none hnames] at h
    obtain ⟨_, _, heq⟩ := Scan.exists_of_map_ok h
    cases heq
  | null | bool _ | number _ | string _ =>
    rw [resolve] at h
    exact Except.ok.inj h

/-- Members can be resolved together if each of them can. -/
theorem exists_resolveMembers_iff {acc : Members} {ms : List (String × Json)} :
    (∃ out, resolveMembers acc ms = .ok out) ↔ ∀ m ∈ ms, ∃ v, resolve m.2 = .ok v := by
  induction ms generalizing acc with
  | nil => simp [resolveMembers]
  | cons m ms ih =>
    obtain ⟨k, t⟩ := m
    rw [resolveMembers, List.forall_mem_cons]
    cases ht : resolve t with
    | error f => simp
    | ok w => simp [ih]

/-- Resolving some of the members, told by their names, gives the values under these names. -/
theorem resolveMembers_filter (keep : String → Bool) {acc out : Members}
    {ms : List (String × Json)} (ho : Named.IsOrdered acc) (h : resolveMembers acc ms = .ok out) :
    resolveMembers (acc.filter fun m => keep m.1) (ms.filter fun m => keep m.1) =
      .ok (out.filter fun m => keep m.1) := by
  induction ms generalizing acc with
  | nil =>
    rw [resolveMembers] at h
    rw [← Except.ok.inj h, List.filter_nil, resolveMembers]
  | cons m ms ih =>
    obtain ⟨k, t⟩ := m
    obtain ⟨w, hw, hout⟩ := exists_of_resolveMembers_cons h
    have hrest := ih (ho.insert k w) hout
    rw [ho.filter_insert] at hrest
    rw [List.filter_cons]
    by_cases hk : keep k = true
    · rw [if_pos hk] at hrest
      simp only [hk, if_true]
      rw [resolveMembers, hw]
      exact hrest
    · rw [if_neg hk] at hrest
      simp only [hk, Bool.false_eq_true, if_false]
      exact hrest

end Json

end AuditRelay
