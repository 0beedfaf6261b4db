import AuditRelay.Proofs.Event.ReadBack
import AuditRelay.Proofs.Json.Printed
import AuditRelay.Store.Spool.Lines

/-!
# AuditRelay.Proofs.Event.Lossless — an event is a line that says all of it

The text of an event is the text of one object, `Event.laidOut`. It is a line of its own, whatever
the names and strings in it are, and nothing is lost as long as the reader may open all its containers;
the first event beyond that cannot be read at all (`written_event_lossless`).
-/

namespace AuditRelay

namespace Event

/-- The object that is written: the identifier, then the fields. -/
def laidOut (e : Event) : Json :=
  .object ((idKey, .string e.id) :: e.fields)

theorem written_laidOut (e : Event) : e.written = e.laidOut.written := rfl

/-- The object is one container around those of the fields. -/
theorem depth_laidOut (e : Event) : e.laidOut.depth = Json.depthMembers e.fields + 1 := by
  rw [laidOut, Json.depth, Json.depthMembers, Json.depth, Nat.zero_max]

theorem depth_laidOut_le_iff (e : Event) :
    e.laidOut.depth ≤ 127 ↔ Json.depthMembers e.fields < Json.maxDepth := by
  rw [depth_laidOut]
  exact Nat.succ_le_iff

/-- A line begins with a brace, which is not blank. -/
theorem not_isBlankLine_written (e : Event) : Spool.isBlankLine e.written = false := rfl

/-- If the reader may not open all containers, there is no event to be read. -/
theorem read_written_of_deep {e : Event} (hb : e.IsBuilt) (hw : Json.MembersWhole e.fields)
    (h : 127 < e.laidOut.depth) : read e.written = .error (.malformed .tooDeep) := by
  have hdeep : ¬ Json.depthMembers e.fields < Json.maxDepth := fun hshallow =>
    absurd (e.depth_laidOut_le_iff.mpr hshallow) (Nat.not_le.mpr h)
  rw [read_written hw hb.hasFields.names, if_neg hdeep, Scan.fail]

/-- Without an embedded text in the fields, an event is read back as itself if the reader may open
all containers, and not at all otherwise. -/
theorem read_written_eq_ite {e : Event} (hb : e.IsBuilt) (hw : Json.MembersWhole e.fields)
    (hl : Json.MembersLiteral e.fields) :
    read e.written =
      if e.laidOut.depth ≤ 127 then .ok e else .error (.malformed .tooDeep) := by
  by_cases hdepth : e.laidOut.depth ≤ 127
  · rw [if_pos hdepth]
    exact (read_written_eq_self_iff hb hw).mpr ⟨e.depth_laidOut_le_iff.mp hdepth, hl⟩
  · rw [if_neg hdepth]
    exact read_written_of_deep hb hw (Nat.not_le.mp hdepth)

end Event

/-- An event that can be built, with whole numbers and no embedded text, whatever its identifier,
names and strings are. Its text is that of its object, one line that is not blank. It is read back as
the same event exactly if the object nests at most 127 containers, and is refused otherwise. An event
that is read from it is written with the same octets again. -/
theorem written_event_lossless {e : Event} (hb : e.IsBuilt) (hw : Json.MembersWhole e.fields)
    (hl : Json.MembersLiteral e.fields) :
    e.written = e.laidOut.written ∧
    Spool.lineFeed ∉ e.written ∧ Spool.isBlankLine e.written = false ∧
    (Event.read e.written = .ok e ↔ e.laidOut.depth ≤ 127) ∧
    (127 < e.laidOut.depth → Event.read e.written = .error (.malformed .tooDeep)) ∧
    ∀ e', Event.read e.written = .ok e' → e' = e ∧ e'.written = e.written := by
  have hread := Event.read_written_eq_ite hb hw hl
  refine ⟨e.written_laidOut, e.feed_not_mem_written, e.not_isBlankLine_written, ?_, ?_, ?_⟩
  · constructor
    · intro hok
      by_contra hdepth
      rw [hread, if_neg hdepth] at hok
      cases hok
    · intro hdepth
      rw [hread, if_pos hdepth]
  · exact Event.read_written_of_deep hb hw
  · intro e' hok
    by_cases hdepth : e.laidOut.depth ≤ 127
    · rw [hread, if_pos hdepth] at hok
      obtain rfl := Except.ok.inj hok
      exact ⟨rfl, rfl⟩
    · rw [hread, if_neg hdepth] at hok
      cases hok

namespace Event

/-- An event with line feeds in its identifier and its fields. -/
def manyLines : Event :=
  ((Event.new "a\nb").withField "größe" (.array [.number (.int (-1)), .null])).withField "\n"
    (.object [("k", .string "\r\n")])

theorem isBuilt_manyLines : manyLines.IsBuilt := by
  refine .withField (.withField (.new _) _ ?_) _ ?_
  · simp [Json.IsOrdered, Json.AllOrdered]
  · simp [Json.IsOrdered, Json.MembersOrdered, Named.IsOrdered]

theorem fields_manyLines : manyLines.fields =
    [("\n", .object [("k", .string "\r\n")]), ("größe", .array [.number (.int (-1)), .null])] := by
  decide

end Event

/-- It is one line all the same, and read back as it was. -/
theorem written_event_lossless_manyLines :
    Spool.lineFeed ∉ Event.manyLines.written ∧
    Event.read Event.manyLines.written = .ok Event.manyLines := by
  have hnegative : (Number.int (-1)).IsWhole := by
    show 0 < 2 ^ 63
    decide
  have hwhole : Json.MembersWhole Event.manyLines.fields := by
    rw [Event.fields_manyLines]
    simp [Json.MembersWhole, Json.IsWhole, Json.AllWhole, hnegative]
  have hliteral : Json.MembersLiteral Event.manyLines.fields := by
    rw [Event.fields_manyLines]
    simp [Json.MembersLiteral, Json.IsLiteral, Json.AllLiteral, Json.embedded?, Json.embeddedKey]
  obtain ⟨-, hfeed, -, hiff, -, -⟩ :=
    written_event_lossless Event.isBuilt_manyLines hwhole hliteral
  exact ⟨hfeed, hiff.mpr (by decide)⟩

end AuditRelay
