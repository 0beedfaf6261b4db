import AuditRelay.Event.Text
import AuditRelay.Proofs.Json.Trees

/-!
# AuditRelay.Proofs.Event.Readings — the two ways to read an event

An event is read from its text directly, or by way of the JSON value that the text has. Both come down
to the tree of the text: the direct reading wants one member under the name of the identifier
(`Event.read_eq_ok_iff`), the other one takes the last of them (`Event.readByValue_eq_ok_iff`). On a
text without the reserved name they agree, except that only the direct one refuses an identifier that
is named twice (`readings_agree`).
-/

namespace AuditRelay

namespace Event

/-- The members under the name of the identifier. -/
def idMembers (ms : List (String × Json)) : List (String × Json) :=
  ms.filter fun m => m.1 = idKey

/-- The member that states an identifier. -/
def stated (id : Option String) : List (String × Json) :=
  (id.map fun s => (idKey, Json.string s)).toList

theorem idMembers_cons (key : String) (v : Json) (ms : List (String × Json)) :
    idMembers ((key, v) :: ms) =
      if key = idKey then (key, v) :: idMembers ms else idMembers ms := by
  by_cases hk : key = idKey <;> simp [idMembers, hk]

theorem stated_eq_nil_iff {id : Option String} : stated id = [] ↔ id = none := by
  cases id <;> simp [stated]

theorem eq_of_cons_eq_stated {id : Option String} {m : String × Json} {ms : List (String × Json)}
    (h : m :: ms = stated id) : (∃ s, m = (idKey, .string s)) ∧ ms = stated none := by
  cases id with
  | none => cases h
  | some s =>
    obtain ⟨rfl, rfl⟩ := List.cons.inj h
    exact ⟨⟨s, rfl⟩, rfl⟩

theorem stated_injective {id id' : Option String} (h : stated id = stated id') : id = id' := by
  cases id <;> cases id' <;> simp_all [stated]

/-! ## The direct reading -/

section Direct

variable {depth : Nat} {draft draft' : Draft} {key : String} {bs rest : Octets}

theorem readMember_id_eq_ok_iff :
    readMember depth draft idKey bs = .ok (draft', rest) ↔
      draft.id = none ∧ ∃ s r, Scan.colon bs = .ok r ∧
        Scan.stringValue "a string" r = .ok (s, rest) ∧ { draft with id := some s } = draft' := by
  rw [readMember, if_pos rfl]
  cases draft.id with
  | some id => simp
  | none =>
    cases Scan.colon bs with
    | error f => simp
    | ok r => simp [Scan.mapResult_eq_ok_iff]

theorem readMember_field_eq_ok_iff (hk : key ≠ idKey) :
    readMember depth draft key bs = .ok (draft', rest) ↔
      ∃ fields, Scan.pushMember (Scan.tree depth) draft.fields key bs = .ok (fields, rest) ∧
        { draft with fields } = draft' := by
  rw [readMember, if_neg hk, Scan.mapResult_eq_ok_iff]

/-- The draft has what it is to have of these members. -/
structure Draft.Holds (draft : Draft) (ms : List (String × Json)) : Prop where
  id : idMembers ms = stated draft.id
  fields : Named.erase idKey ms = draft.fields

theorem readMember_follows_tree (key : String) :
    Scan.Follows (fun draft bs => readMember depth draft key bs)
      (fun ms bs => Scan.pushMember (Scan.tree depth) ms key bs) (fun _ => True) Draft.Holds := by
  refine ⟨fun _ _ => trivial, ?_⟩
  intro draft ms bs draft' rest hd _ h
  by_cases hk : key = idKey
  · subst hk
    obtain ⟨hnone, s, r, hcolon, hs, rfl⟩ := readMember_id_eq_ok_iff.mp h
    have hms := hd.id
    rw [hnone] at hms
    refine ⟨_, Scan.pushMember_eq_ok_iff.mpr ⟨.string s, r, hcolon, Scan.tree_string_iff.mpr hs, rfl⟩,
      ?_, ?_⟩
    · rw [idMembers_cons, if_pos rfl, hms]
      rfl
    · rw [Named.erase_cons, if_pos rfl]
      exact hd.fields
  · obtain ⟨fields, hpush, rfl⟩ := (readMember_field_eq_ok_iff hk).mp h
    obtain ⟨v, r, hcolon, hv, rfl⟩ := Scan.pushMember_eq_ok_iff.mp hpush
    refine ⟨_, Scan.pushMember_eq_ok_iff.mpr ⟨v, r, hcolon, hv, rfl⟩, ?_, ?_⟩
    · rw [idMembers_cons, if_neg hk]
      exact hd.id
    · rw [Named.erase_cons, if_neg hk, hd.fields]

/-- The tree is followed as long as it names the identifier once, with a string. -/
theorem tree_follows_readMember (key : String) :
    Scan.Follows (fun ms bs => Scan.pushMember (Scan.tree depth) ms key bs)
      (fun draft bs => readMember depth draft key bs) (fun ms => ∃ id, idMembers ms = stated id)
      fun ms draft => draft.Holds ms := by
  constructor
  · rintro ms bs ms' rest h ⟨id, hid⟩
    obtain ⟨v, r, -, -, rfl⟩ := Scan.pushMember_eq_ok_iff.mp h
    rw [idMembers_cons] at hid
    by_cases hk : key = idKey
    · rw [if_pos hk] at hid
      exact ⟨none, (eq_of_cons_eq_stated hid).2⟩
    · rw [if_neg hk] at hid
      exact ⟨id, hid⟩
  · rintro ms draft bs ms' rest hd ⟨id, hid⟩ h
    obtain ⟨v, r, hcolon, hv, rfl⟩ := Scan.pushMember_eq_ok_iff.mp h
    rw [idMembers_cons] at hid
    by_cases hk : key = idKey
    · subst hk
      rw [if_pos rfl] at hid
      obtain ⟨⟨s, hmember⟩, hms⟩ := eq_of_cons_eq_stated hid
      obtain ⟨-, rfl⟩ := Prod.mk.inj hmember
      -- no identifier came before this one
      have hnone : draft.id = none := stated_eq_nil_iff.mp (hd.id.symm.trans hms)
      refine ⟨_, readMember_id_eq_ok_iff.mpr
        ⟨hnone, s, r, hcolon, Scan.tree_string_iff.mp hv, rfl⟩, ?_, ?_⟩
      · rw [idMembers_cons, if_pos rfl, hms]
        rfl
      · rw [Named.erase_cons, if_pos rfl]
        exact hd.fields
    · refine ⟨_, (readMember_field_eq_ok_iff hk).mpr
        ⟨_, Scan.pushMember_eq_ok_iff.mpr ⟨v, r, hcolon, hv, rfl⟩, rfl⟩, ?_, ?_⟩
      · rw [idMembers_cons, if_neg hk]
        exact hd.id
      · rw [Named.erase_cons, if_neg hk, hd.fields]

theorem finish_eq_ok_iff {e : Event} :
    draft.finish = .ok e ↔
      draft.id = some e.id ∧ Json.resolveMembers [] draft.fields.reverse = .ok e.fields := by
  unfold Draft.finish
  cases draft.id with
  | none => simp
  | some id =>
    cases Json.resolveMembers [] draft.fields.reverse with
    | error f => simp [Except.map]
    | ok fields =>
      cases e
      simp [Except.map]

/-- The members state the identifier of the event, once, and resolve to its fields. -/
structure StatedBy (e : Event) (ms : List (String × Json)) : Prop where
  id : idMembers ms = stated (some e.id)
  fields : Json.resolveMembers [] (Named.erase idKey ms) = .ok e.fields

theorem Draft.Holds.statedBy_reverse_iff {ms : List (String × Json)} (h : draft.Holds ms)
    {e : Event} : e.StatedBy ms.reverse ↔ draft.finish = .ok e := by
  have hid : idMembers ms.reverse = stated draft.id := by
    rw [idMembers, List.filter_reverse, ← idMembers, h.id]
    cases draft.id <;> rfl
  have hfields : Named.erase idKey ms.reverse = draft.fields.reverse := by
    rw [Named.erase, List.filter_reverse, ← Named.erase, h.fields]
  rw [finish_eq_ok_iff, ← hfields]
  constructor
  · rintro ⟨hstated, hresolve⟩
    exact ⟨stated_injective (hid.symm.trans hstated), hresolve⟩
  · rintro ⟨hsome, hresolve⟩
    exact ⟨by rw [hid, hsome], hresolve⟩

theorem reading_eq_ok_iff {e : Event} :
    reading bs = .ok (e, rest) ↔
      ∃ ms, Scan.tree Json.maxDepth bs = .ok (.object ms, rest) ∧ e.StatedBy ms := by
  have hholds : Draft.Holds ⟨none, []⟩ [] := ⟨rfl, rfl⟩
  constructor
  · intro h
    unfold reading at h
    split at h
    · cases h
    · rename_i b r hs
      split at h
      · rename_i hb
        split at h
        · cases h
        · rename_i draft rest' hread
          obtain ⟨e', hfinish, heq⟩ := Scan.exists_of_map_ok h
          obtain ⟨rfl, rfl⟩ := Prod.mk.inj heq
          obtain ⟨ms, hms, hd⟩ :=
            Scan.Follows.members readMember_follows_tree hread trivial hholds
          refine ⟨ms.reverse, Scan.tree_succ_object_iff.mpr ⟨r, hb ▸ hs, ?_⟩,
            hd.statedBy_reverse_iff.mpr hfinish⟩
          rw [List.reverse_reverse]
          exact hms
      · exact absurd h Scan.refuse_ne_ok
  · rintro ⟨ms, htree, he⟩
    obtain ⟨r, hs, hms⟩ := Scan.tree_succ_object_iff.mp htree
    have hwanted : ∃ id, idMembers ms.reverse = stated id := by
      refine ⟨some e.id, ?_⟩
      rw [idMembers, List.filter_reverse, ← idMembers, he.id]
      rfl
    obtain ⟨draft, hread, hd⟩ :=
      Scan.Follows.members tree_follows_readMember hms hwanted hholds
    have hfinish := hd.statedBy_reverse_iff.mp (by rw [List.reverse_reverse]; exact he)
    rw [reading, hs]
    simp only [if_true]
    rw [show Json.maxDepth - 1 = 126 from rfl, hread]
    simp only
    rw [hfinish]
    rfl

/-- An event is read directly from an object whose members state it. -/
theorem read_eq_ok_iff {e : Event} :
    read bs = .ok e ↔ ∃ ms, Json.treeOf bs = .ok (.object ms) ∧ e.StatedBy ms := by
  rw [read, Scan.complete_eq_ok_iff]
  simp only [reading_eq_ok_iff, Json.treeOf, Scan.complete_eq_ok_iff]
  constructor
  · rintro ⟨rest, ⟨ms, htree, he⟩, hrest⟩
    exact ⟨ms, ⟨rest, htree, hrest⟩, he⟩
  · rintro ⟨ms, ⟨rest, htree, hrest⟩, he⟩
    exact ⟨rest, ⟨ms, htree, he⟩, hrest⟩

end Direct

/-! ## The reading by way of a value -/

section ByValue

variable {bs : Octets} {e : Event}

theorem ofJson_eq_ok_iff {v : Json} :
    ofJson v = .ok e ↔ ∃ ms, v = .object ms ∧ Named.get? ms idKey = some (.string e.id) ∧
      Json.resolveMembers [] (Named.erase idKey ms) = .ok e.fields := by
  constructor
  · intro h
    unfold ofJson at h
    split at h
    · rename_i ms
      split at h
      · cases h
      · rename_i id hid
        obtain ⟨fields, hfields, rfl⟩ := Scan.exists_of_map_ok h
        exact ⟨ms, rfl, hid, hfields⟩
      · cases h
    · cases h
  · rintro ⟨ms, rfl, hid, hfields⟩
    rw [ofJson, hid]
    simp only
    rw [hfields]
    rfl

/-- The values that the members resolve to have the identifier of the event, and its fields. -/
structure ValuedBy (e : Event) (out : Members) : Prop where
  id : Named.get? out idKey = some (.string e.id)
  fields : Named.erase idKey out = e.fields

/-- An event is read by way of a value if the members of the object resolve to it. -/
theorem readByValue_eq_ok_iff (hordinary : Json.IsOrdinary bs) :
    readByValue bs = .ok e ↔ ∃ ms out, Json.treeOf bs = .ok (.object ms) ∧
      Json.resolveMembers [] ms = .ok out ∧ e.ValuedBy out := by
  -- what has been resolved is not changed when it is resolved again
  have hagain : ∀ {ms out}, Json.treeOf bs = .ok (.object ms) →
      Json.resolveMembers [] ms = .ok out →
      Json.resolveMembers [] (Named.erase idKey out) = .ok (Named.erase idKey out) := by
    intro ms out htree hout
    have hnames := hordinary _ htree
    rw [Json.names] at hnames
    have hself : Json.resolveMembers [] out = .ok out := by
      refine (Json.resolveMembers_eq_self_iff ?_).mpr ?_
      · exact Json.resolveMembers_ordered ms ⟨List.Pairwise.nil, trivial⟩ hout
      · have hnil : Json.MembersLiteral [] := Json.membersLiteral_iff.mpr (by simp)
        exact Json.literal_of_resolvedMembers ms hnames hnil hout
    exact Json.resolveMembers_filter (fun name => name ≠ idKey) List.Pairwise.nil hself
  rw [readByValue]
  constructor
  · intro h
    split at h
    · cases h
    · rename_i v hv
      obtain ⟨out, rfl, hid, hfields⟩ := ofJson_eq_ok_iff.mp h
      obtain ⟨t, htree, hresolve⟩ := (Json.ofOctets_eq_ok_iff hordinary).mp hv
      obtain ⟨ms, rfl, hout⟩ := Json.exists_members_of_resolve (hordinary _ htree) hresolve
      refine ⟨ms, out, htree, hout, hid, ?_⟩
      exact Except.ok.inj ((hagain htree hout).symm.trans hfields)
  · rintro ⟨ms, out, htree, hout, he⟩
    have hnames := hordinary _ htree
    rw [Json.names] at hnames
    have hresolve : Json.resolve (.object ms) = .ok (.object out) := by
      rw [Json.resolve, Json.embedded?_eq_none hnames]
      simp only
      rw [hout]
      rfl
    rw [(Json.ofOctets_eq_ok_iff hordinary).mpr ⟨_, htree, hresolve⟩]
    refine ofJson_eq_ok_iff.mpr ⟨out, rfl, he.id, ?_⟩
    rw [hagain htree hout, he.fields]

end ByValue

/-! ## Comparing the two -/

section Agreement

variable {ms : List (String × Json)} {out : Members} {e : Event}

/-- Resolving leaves the identifier and the fields apart. -/
theorem resolve_apart (h : Json.resolveMembers [] ms = .ok out) :
    Json.resolveMembers [] (idMembers ms) = .ok (idMembers out) ∧
      Json.resolveMembers [] (Named.erase idKey ms) = .ok (Named.erase idKey out) :=
  ⟨Json.resolveMembers_filter (fun name => name = idKey) List.Pairwise.nil h,
    Json.resolveMembers_filter (fun name => name ≠ idKey) List.Pairwise.nil h⟩

theorem isOrdered_of_resolved (h : Json.resolveMembers [] ms = .ok out) : Named.IsOrdered out :=
  (Json.resolveMembers_ordered ms ⟨List.Pairwise.nil, trivial⟩ h).1

/-- Members that state an event resolve to it. -/
theorem StatedBy.exists_valued (h : e.StatedBy ms) :
    ∃ out, Json.resolveMembers [] ms = .ok out ∧ e.ValuedBy out := by
  have hall : ∀ m ∈ ms, ∃ v, Json.resolve m.2 = .ok v := by
    intro m hm
    by_cases hk : m.1 = idKey
    · have hmem : m ∈ idMembers ms := List.mem_filter.mpr ⟨hm, by simpa using hk⟩
      rw [h.id] at hmem
      obtain rfl := List.mem_singleton.mp hmem
      exact ⟨_, by rw [Json.resolve]⟩
    · refine Json.exists_resolveMembers_iff.mp ⟨_, h.fields⟩ m ?_
      exact List.mem_filter.mpr ⟨hm, by simpa using hk⟩
  obtain ⟨out, hout⟩ := Json.exists_resolveMembers_iff.mpr hall
  obtain ⟨hid, hfields⟩ := resolve_apart hout
  refine ⟨out, hout, ?_, Except.ok.inj (hfields.symm.trans h.fields)⟩
  have hone : Json.resolveMembers [] (stated (some e.id)) = .ok [(idKey, .string e.id)] := by
    have hstring : Json.resolve (.string e.id) = .ok (.string e.id) := by rw [Json.resolve]
    exact Json.resolveMembers_concat idKey hstring (by rw [Json.resolveMembers])
  rw [h.id, hone] at hid
  have hmem : (idKey, Json.string e.id) ∈ idMembers out := by
    rw [← Except.ok.inj hid]
    exact List.mem_singleton_self _
  exact (isOrdered_of_resolved hout).get?_of_mem (List.mem_filter.mp hmem).1

/-- Members that resolve to an event state it, if they name the identifier only once. -/
theorem ValuedBy.statedBy (h : e.ValuedBy out) (hout : Json.resolveMembers [] ms = .ok out)
    (hnames : Json.embeddedKey ∉ Json.namesOfMembers ms) (honce : (idMembers ms).length ≤ 1) :
    e.StatedBy ms := by
  obtain ⟨hid, hfields⟩ := resolve_apart hout
  refine ⟨?_, by rw [hfields, h.fields]⟩
  have hmem : (idKey, Json.string e.id) ∈ idMembers out :=
    List.mem_filter.mpr ⟨Named.mem_of_get? h.id, by simp⟩
  match hms : idMembers ms with
  | [] =>
    rw [hms, Json.resolveMembers] at hid
    rw [← Except.ok.inj hid] at hmem
    cases hmem
  | m :: n :: rest =>
    rw [hms] at honce
    simp at honce
  | [m] =>
    have hm : m ∈ ms ∧ m.1 = idKey := by
      have hmem : m ∈ idMembers ms := by rw [hms]; exact List.mem_singleton_self m
      simpa [idMembers] using hmem
    obtain ⟨k, t⟩ := m
    obtain ⟨hm, rfl⟩ := hm
    rw [hms, Json.resolveMembers] at hid
    split at hid
    · cases hid
    · rename_i w hw
      rw [Json.resolveMembers] at hid
      rw [← Except.ok.inj hid] at hmem
      obtain ⟨-, rfl⟩ := Prod.mk.inj (List.mem_singleton.mp hmem)
      have ht : Json.embeddedKey ∉ t.names := fun hk =>
        hnames (Json.mem_namesOfMembers.mpr ⟨_, hm, .inr hk⟩)
      rw [Json.eq_string_of_resolve ht hw]
      rfl

end Agreement

/-- The text is no object that names the identifier twice at its top level. -/
def NamesIdOnce (bs : Octets) : Prop :=
  ∀ ms, Json.treeOf bs = .ok (.object ms) → (idMembers ms).length ≤ 1

instance (bs : Octets) : Decidable (NamesIdOnce bs) :=
  match h : Json.treeOf bs with
  | .ok (.object ms) =>
    decidable_of_iff ((idMembers ms).length ≤ 1)
      ⟨fun hms _ ht => by
        rw [h] at ht
        injection ht with ht
        injection ht with ht
        exact ht ▸ hms, fun hall => hall ms h⟩
  | .ok (.null) | .ok (.bool _) | .ok (.number _) | .ok (.string _) | .ok (.array _)
  | .error _ => .isTrue fun _ ht => by
    rw [h] at ht
    cases ht

end Event

/-- What is read of an event directly is also read by way of a JSON value, from every text without
the reserved name. From a text that does not name the identifier twice, either reading gives what the
other one gives. -/
theorem readings_agree {bs : Octets} (hordinary : Json.IsOrdinary bs) :
    (∀ e, Event.read bs = .ok e → Event.readByValue bs = .ok e) ∧
      (Event.NamesIdOnce bs → ∀ e, Event.read bs = .ok e ↔ Event.readByValue bs = .ok e) := by
  have hforth : ∀ e, Event.read bs = .ok e → Event.readByValue bs = .ok e := by
    intro e h
    obtain ⟨ms, htree, he⟩ := Event.read_eq_ok_iff.mp h
    obtain ⟨out, hout, hvalued⟩ := he.exists_valued
    exact (Event.readByValue_eq_ok_iff hordinary).mpr ⟨ms, out, htree, hout, hvalued⟩
  refine ⟨hforth, fun honce e => ⟨hforth e, fun h => ?_⟩⟩
  obtain ⟨ms, out, htree, hout, hvalued⟩ := (Event.readByValue_eq_ok_iff hordinary).mp h
  have hnames := hordinary _ htree
  rw [Json.names] at hnames
  exact Event.read_eq_ok_iff.mpr ⟨ms, htree, hvalued.statedBy hout hnames (honce ms htree)⟩

namespace Event

/-- The name of the identifier is spelled with an escape, another name comes twice, and so does one
further in. -/
def escapedName : Octets :=
  Text.octets "\x7b\"k\":1,\"\\u0069d\":\"a\",\"k\":\x7b\"x\":1,\"x\":2\x7d\x7d"

/-- The identifier comes twice, once spelled with an escape. -/
def secondName : Octets :=
  Text.octets "\x7b\"\\u0069d\":\"a\",\"id\":\"b\"\x7d"

end Event

theorem readings_agree_escapedName :
    Event.read Event.escapedName = .ok ⟨"a", [("k", .object [("x", .number (.int 2))])]⟩ ∧
    Event.readByValue Event.escapedName =
      .ok ⟨"a", [("k", .object [("x", .number (.int 2))])]⟩ := by
  have hread : Event.read Event.escapedName =
      .ok ⟨"a", [("k", .object [("x", .number (.int 2))])]⟩ := by decide +kernel
  have hordinary : Json.IsOrdinary Event.escapedName := by decide +kernel
  have honce : Event.NamesIdOnce Event.escapedName := by decide +kernel
  exact ⟨hread, ((readings_agree hordinary).2 honce _).mp hread⟩

/-- A second identifier is refused when it is read directly, and otherwise it is the one that is
kept. -/
example : Event.read Event.secondName = .error (.misshapen (.duplicateField Event.idKey)) ∧
    Event.readByValue Event.secondName = .ok (.new "b") := by decide +kernel

end AuditRelay
