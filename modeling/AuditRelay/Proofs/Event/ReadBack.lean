import AuditRelay.Event.Text
import AuditRelay.Proofs.Json.Resolve
import AuditRelay.Proofs.Json.RoundTrip

/-!
# AuditRelay.Proofs.Event.ReadBack — when an event is read back from its text

The fields of an event that can be built are values in order under names other than `id`
(`Event.IsBuilt`). With whole numbers, such an event is read back from its text exactly if its
fields leave room for the containers that the reader opens and are literal
(`Event.read_written_eq_self_iff`). The writer knows neither limit.
-/

namespace AuditRelay

namespace Event

/-- The event comes from the constructors, with values whose members are in order. -/
inductive IsBuilt : Event → Prop
  | new (id : String) : IsBuilt (Event.new id)
  | withField {e : Event} (he : IsBuilt e) (key : String) {value : Json} (hv : value.IsOrdered) :
      IsBuilt (e.withField key value)
  | ofJson {v : Json} {e : Event} (hv : v.IsOrdered) (he : Event.ofJson v = .ok e) : IsBuilt e

/-- The reader opens containers enough for the fields, and takes none of them for an embedded
text. -/
structure IsLegible (e : Event) : Prop where
  shallow : Json.depthMembers e.fields < Json.maxDepth
  literal : Json.MembersLiteral e.fields

/-! ## The fields of an event -/

/-- The fields are in order, none under the name of the identifier. -/
structure HasFields (e : Event) : Prop where
  ordered : Json.FieldsOrdered e.fields
  names : ∀ m ∈ e.fields, m.1 ≠ idKey

theorem ofJson_hasFields {v : Json} (hv : v.IsOrdered) {e : Event} (h : ofJson v = .ok e) :
    e.HasFields := by
  unfold ofJson at h
  split at h
  · rename_i ms
    rw [Json.IsOrdered] at hv
    split at h
    · cases h
    · obtain ⟨fields, hfields, rfl⟩ := Scan.exists_of_map_ok h
      have hnil : Json.FieldsOrdered [] := ⟨List.Pairwise.nil, trivial⟩
      refine ⟨Json.resolveMembers_ordered _ hnil hfields, ?_⟩
      intro p hp
      rcases Json.mem_of_resolveMembers hfields hp with hp | ⟨m, hm, hname⟩
      · cases hp
      · rw [← hname]
        exact of_decide_eq_true (List.mem_filter.mp hm).2
    · cases h
  · cases h

theorem IsBuilt.hasFields {e : Event} (h : e.IsBuilt) : e.HasFields := by
  induction h with
  | new id =>
    constructor
    · exact ⟨List.Pairwise.nil, trivial⟩
    · intro m hm
      cases hm
  | @withField e he key value hv ih =>
    unfold Event.withField
    by_cases hk : key = idKey
    · rw [if_pos hk]
      exact ih
    · rw [if_neg hk]
      constructor
      · exact ih.ordered.insert key hv
      · intro m hm
        rcases Named.mem_insert hm with rfl | hm
        · exact hk
        · exact ih.names m hm
  | ofJson hv he => exact ofJson_hasFields hv he

/-! ## Reading a written event -/

/-- What has been read once a field has been read too. -/
def Draft.put (draft : Draft) (m : String × Json) : Draft :=
  { draft with fields := m :: draft.fields }

theorem foldl_put (ms : List (String × Json)) (draft : Draft) :
    ms.foldl Draft.put draft = { draft with fields := ms.reverse ++ draft.fields } := by
  induction ms generalizing draft with
  | nil => rfl
  | cons m ms ih =>
    rw [List.foldl_cons, ih, List.reverse_cons, List.append_assoc]
    rfl

/-- The identifier is read from behind its name, once. -/
theorem readMember_id (depth : Nat) (id : String) (tail : Octets) :
    readMember depth ⟨none, []⟩ idKey
        (Scan.octet ':' :: ((Json.string id).written ++ tail)) = .ok (⟨some id, []⟩, tail) := by
  have hcolon : Scan.colon (Scan.octet ':' :: ((Json.string id).written ++ tail)) =
      .ok ((Json.string id).written ++ tail) := rfl
  have htext : (Json.string id).written ++ tail =
      Scan.octet '"' :: (id.toList.flatMap Json.escaped ++ Scan.octet '"' :: tail) := by
    rw [Json.written, Json.writtenString]
    simp
  have hquote : ∀ r, Scan.stringValue "a string" (Scan.octet '"' :: r) = Scan.string r :=
    fun _ => rfl
  have hfirst : ¬ (⟨none, []⟩ : Draft).id.isSome = true := Bool.false_ne_true
  rw [readMember, if_pos rfl, if_neg hfirst, hcolon]
  simp only
  rw [htext, hquote, Scan.string_written]
  rfl

/-- A field is read if it is not too deep. -/
theorem readMember_field {depth : Nat} {m : String × Json} (hw : m.2.IsWhole) (hk : m.1 ≠ idKey)
    (draft : Draft) {tail : Octets} (ht : Scan.Closes tail) :
    readMember depth draft m.1 (Scan.octet ':' :: (m.2.written ++ tail)) =
      if m.2.depth ≤ depth then .ok (draft.put m, tail) else Scan.fail .tooDeep := by
  rw [readMember, if_neg hk,
    Scan.pushMember_written (Scan.tree_written depth hw ht) draft.fields]
  by_cases hdepth : m.2.depth ≤ depth
  · rw [if_pos hdepth, if_pos hdepth]
    rfl
  · rw [if_neg hdepth, if_neg hdepth]
    rfl

/-- A written event is read up to its fields, which are then resolved. -/
theorem read_written {e : Event} (hw : Json.MembersWhole e.fields)
    (hk : ∀ m ∈ e.fields, m.1 ≠ idKey) :
    read e.written =
      if Json.depthMembers e.fields < Json.maxDepth then
        (Json.resolveMembers [] e.fields).map (⟨e.id, ·⟩)
      else Scan.fail .tooDeep := by
  have htext : e.written = Scan.octet '\x7b' ::
      (Json.writtenMembers ((idKey, .string e.id) :: e.fields) ++ [Scan.octet '\x7d']) := rfl
  have hrounds := Scan.length_lt_writtenMembers ((idKey, .string e.id) :: e.fields) []
  have hbrace : ∀ r, Scan.skipBlanks (Scan.octet '\x7b' :: r) = Scan.octet '\x7b' :: r :=
    fun r => Scan.skipBlanks_cons (by decide) r
  have hfields := Scan.members_after (readMember (Json.maxDepth - 1)) Draft.put
    (fun v => v.depth ≤ Json.maxDepth - 1)
    (fun m hm draft tail ht => readMember_field (hw.of_mem m hm) (hk m hm) draft ht)
    ⟨some e.id, []⟩ [] (Nat.lt_of_succ_lt_succ hrounds)
  rw [read, htext, reading, hbrace]
  simp only
  rw [if_true, Scan.members_cons, readMember_id]
  simp only
  rw [hfields]
  have hdepth : (∀ m ∈ e.fields, m.2.depth ≤ Json.maxDepth - 1) ↔
      Json.depthMembers e.fields < Json.maxDepth := by
    rw [← Json.depthMembers_le_iff]
    unfold Json.maxDepth
    omega
  simp only [hdepth]
  by_cases hshallow : Json.depthMembers e.fields < Json.maxDepth
  · rw [if_pos hshallow, if_pos hshallow]
    simp only
    rw [foldl_put, List.append_nil, Draft.finish]
    simp only
    rw [List.reverse_reverse]
    cases Json.resolveMembers [] e.fields with
    | error f => rfl
    | ok fields => rfl
  · rw [if_neg hshallow, if_neg hshallow]
    rfl

/-- An event that can be built is read back as itself exactly if it is legible. -/
theorem read_written_eq_self_iff {e : Event} (hb : e.IsBuilt) (hw : Json.MembersWhole e.fields) :
    read e.written = .ok e ↔ e.IsLegible := by
  have hf := hb.hasFields
  rw [read_written hw hf.names]
  constructor
  · intro h
    by_cases hshallow : Json.depthMembers e.fields < Json.maxDepth
    · rw [if_pos hshallow] at h
      obtain ⟨fields, hfields, heq⟩ := Scan.exists_of_map_ok h
      have hsame : fields = e.fields := congrArg Event.fields heq
      subst hsame
      exact ⟨hshallow, (Json.resolveMembers_eq_self_iff hf.ordered).mp hfields⟩
    · rw [if_neg hshallow] at h
      cases h
  · intro hl
    rw [if_pos hl.shallow, (Json.resolveMembers_eq_self_iff hf.ordered).mpr hl.literal]
    rfl

-- an object with the reserved name is read as the text that it holds
example :
    read ((Event.new "a").withField "k" (.object [(Json.embeddedKey, .string "1")])).written =
      .ok ((Event.new "a").withField "k" (.number (.int 1))) := by
  decide +kernel

end Event

end AuditRelay
