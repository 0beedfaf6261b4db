import AuditRelay.Store.Spool.Lines
import Mathlib.Data.List.Infix

/-!
# AuditRelay.Proofs.Store.Lines — cutting a file into lines, and what is kept of it

Two facts carry the spool. A line that is appended to complete lines is a line of its own and
leaves the others alone (`eventsIn_append_line`). And what `sift` keeps of a file holds the same
events and no damage (`eventsIn_kept`, `damaged_kept`), so that setting damaged lines aside takes
no event and is done once.
-/

namespace AuditRelay.Spool

/-! ## Lines -/

theorem lines_nil : lines [] = [[]] := rfl

theorem lines_feed (bs : Octets) : lines (lineFeed :: bs) = [] :: lines bs := rfl

theorem lines_ne_nil (bs : Octets) : lines bs ≠ [] := List.cons_ne_nil _ _

/-- An octet that is no line feed stands in the first line. -/
theorem lines_cons {b : UInt8} {bs first : Octets} {rest : List Octets} (hb : b ≠ lineFeed)
    (h : lines bs = first :: rest) : lines (b :: bs) = (b :: first) :: rest := by
  obtain ⟨rfl, rfl⟩ := List.cons.inj h
  simp only [lines, List.foldr_cons, cutBefore, if_neg hb]

theorem lines_append_feed (xs ys : Octets) :
    lines (xs ++ lineFeed :: ys) = lines xs ++ lines ys := by
  induction xs with
  | nil => exact lines_feed ys
  | cons b xs ih =>
    rw [List.cons_append]
    by_cases hb : b = lineFeed
    · rw [hb, lines_feed, lines_feed, ih, List.cons_append]
    · obtain ⟨first, rest, hx⟩ := List.exists_cons_of_ne_nil (lines_ne_nil xs)
      have hxy : lines (xs ++ lineFeed :: ys) = first :: (rest ++ lines ys) := by
        rw [ih, hx, List.cons_append]
      rw [lines_cons hb hxy, lines_cons hb hx, List.cons_append]

theorem not_mem_lines (bs : Octets) : ∀ l ∈ lines bs, lineFeed ∉ l := by
  induction bs with
  | nil =>
    intro l hl
    rw [lines_nil, List.mem_singleton] at hl
    rw [hl]
    exact List.not_mem_nil
  | cons b bs ih =>
    intro l hl
    by_cases hb : b = lineFeed
    · rw [hb, lines_feed] at hl
      rcases List.mem_cons.mp hl with rfl | hl
      · exact List.not_mem_nil
      · exact ih l hl
    · obtain ⟨first, rest, hx⟩ := List.exists_cons_of_ne_nil (lines_ne_nil bs)
      rw [lines_cons hb hx] at hl
      rcases List.mem_cons.mp hl with rfl | hl
      · rw [List.mem_cons, not_or]
        exact ⟨Ne.symm hb, ih first (hx ▸ List.mem_cons_self)⟩
      · exact ih l (hx ▸ List.mem_cons_of_mem _ hl)

theorem lines_of_not_mem {line : Octets} (h : lineFeed ∉ line) : lines line = [line] := by
  induction line with
  | nil => rfl
  | cons b bs ih =>
    rw [List.mem_cons, not_or] at h
    exact lines_cons (Ne.symm h.1) (ih h.2)

/-- Each line with a line feed behind it. -/
def joined (ls : List Octets) : Octets :=
  ls.flatMap fun l => l ++ [lineFeed]

theorem joined_cons (l : Octets) (ls : List Octets) :
    joined (l :: ls) = l ++ lineFeed :: joined ls := by
  rw [joined, List.flatMap_cons, List.append_assoc, List.singleton_append, joined]

/-- The lines of a text, joined again, are the text with one more line feed. -/
theorem joined_lines (bs : Octets) : joined (lines bs) = bs ++ [lineFeed] := by
  induction bs with
  | nil => rfl
  | cons b bs ih =>
    by_cases hb : b = lineFeed
    · rw [hb, lines_feed, joined_cons, ih]
      rfl
    · obtain ⟨first, rest, hx⟩ := List.exists_cons_of_ne_nil (lines_ne_nil bs)
      rw [hx, joined_cons] at ih
      rw [lines_cons hb hx, joined_cons, List.cons_append, ih]
      rfl

/-! ## Sifting -/

theorem siftBefore_blank {line : Octets} (h : isBlankLine line = true) (s : Sifted) :
    siftBefore line s = s := if_pos h

theorem siftBefore_event {line : Octets} {e : Event} (hb : isBlankLine line = false)
    (h : Event.read line = .ok e) (s : Sifted) :
    siftBefore line s = ⟨e :: s.events, line ++ lineFeed :: s.kept, s.damaged⟩ := by
  simp only [siftBefore, hb, Bool.false_eq_true, if_false, h]

theorem siftBefore_damaged {line : Octets} {f : JsonFault} (hb : isBlankLine line = false)
    (h : Event.read line = .error f) (s : Sifted) :
    siftBefore line s = ⟨s.events, s.kept, ⟨line, f⟩ :: s.damaged⟩ := by
  simp only [siftBefore, hb, Bool.false_eq_true, if_false, h]

theorem sift_cons (line : Octets) (ls : List Octets) :
    sift (line :: ls) = siftBefore line (sift ls) := rfl

/-- Induction along the lines of a file, with a case for each thing that a line can be: blank, an
event, or damaged. -/
@[elab_as_elim]
theorem sift_induction {motive : List Octets → Prop} (nil : motive [])
    (blank : ∀ line ls, isBlankLine line = true → sift (line :: ls) = sift ls → motive ls →
      motive (line :: ls))
    (event : ∀ line ls e, isBlankLine line = false → Event.read line = .ok e →
      sift (line :: ls) =
        ⟨e :: (sift ls).events, line ++ lineFeed :: (sift ls).kept, (sift ls).damaged⟩ →
      motive ls → motive (line :: ls))
    (damaged : ∀ line ls f, isBlankLine line = false → Event.read line = .error f →
      sift (line :: ls) =
        ⟨(sift ls).events, (sift ls).kept, ⟨line, f⟩ :: (sift ls).damaged⟩ →
      motive ls → motive (line :: ls))
    (ls : List Octets) : motive ls := by
  induction ls with
  | nil => exact nil
  | cons line ls ih =>
    cases hb : isBlankLine line with
    | true => exact blank line ls hb (siftBefore_blank hb _) ih
    | false =>
      cases hr : Event.read line with
      | ok e => exact event line ls e hb hr (siftBefore_event hb hr _) ih
      | error f => exact damaged line ls f hb hr (siftBefore_damaged hb hr _) ih

/-- Lines are separated one by one, so those in front do not matter to those behind. -/
theorem sift_append (xs ys : List Octets) :
    sift (xs ++ ys) = ⟨(sift xs).events ++ (sift ys).events, (sift xs).kept ++ (sift ys).kept,
      (sift xs).damaged ++ (sift ys).damaged⟩ := by
  induction xs using sift_induction with
  | nil => rfl
  | blank line xs hb hs ih => rw [List.cons_append, sift_cons, siftBefore_blank hb, hs, ih]
  | event line xs e hb hr hs ih =>
    rw [List.cons_append, sift_cons, siftBefore_event hb hr, hs, ih]
    simp only [List.cons_append, List.append_assoc]
  | damaged line xs f hb hr hs ih =>
    rw [List.cons_append, sift_cons, siftBefore_damaged hb hr, hs, ih]
    simp only [List.cons_append]

/-- The events of a file with these contents. -/
def eventsIn (contents : Octets) : List Event :=
  (sift (lines contents)).events

theorem eventsIn_nil : eventsIn [] = [] := rfl

/-- Only complete lines, each with its line feed. -/
def IsWhole (contents : Octets) : Prop :=
  contents = [] ∨ ∃ front, contents = front ++ [lineFeed]

theorem IsWhole.append_line (contents line : Octets) : IsWhole (contents ++ (line ++ [lineFeed])) :=
  .inr ⟨contents ++ line, (List.append_assoc _ _ _).symm⟩

/-- What is put behind complete lines is separated by itself. -/
theorem sift_lines_append {contents : Octets} (h : IsWhole contents) (bs : Octets) :
    sift (lines (contents ++ bs)) =
      ⟨(sift (lines contents)).events ++ (sift (lines bs)).events,
        (sift (lines contents)).kept ++ (sift (lines bs)).kept,
        (sift (lines contents)).damaged ++ (sift (lines bs)).damaged⟩ := by
  rcases h with rfl | ⟨front, rfl⟩
  · rfl
  · have hblank : sift (lines (front ++ [lineFeed])) = sift (lines front) := by
      rw [lines_append_feed, sift_append]
      simp [lines_nil, sift, siftBefore, isBlankLine]
    rw [List.append_assoc, List.singleton_append, lines_append_feed, sift_append, hblank]

theorem eventsIn_append {contents : Octets} (h : IsWhole contents) (bs : Octets) :
    eventsIn (contents ++ bs) = eventsIn contents ++ eventsIn bs := by
  rw [eventsIn, sift_lines_append h, eventsIn, eventsIn]

/-- The events of one line. -/
theorem events_of_line (line : Octets) :
    (sift [line]).events = if isBlankLine line then [] else (Event.read line).toOption.toList := by
  rw [sift_cons]
  cases hb : isBlankLine line with
  | true =>
    rw [siftBefore_blank hb]
    rfl
  | false =>
    cases hr : Event.read line with
    | ok e =>
      rw [siftBefore_event hb hr]
      rfl
    | error f =>
      rw [siftBefore_damaged hb hr]
      rfl

/-- A line holds the event that is read from it, if there is one. -/
theorem eventsIn_line {line : Octets} (hl : lineFeed ∉ line) (hb : isBlankLine line = false) :
    eventsIn (line ++ [lineFeed]) = (Event.read line).toOption.toList := by
  rw [eventsIn, lines_append_feed, lines_of_not_mem hl]
  show (sift [line]).events = _
  rw [events_of_line, hb, if_neg Bool.false_ne_true]

/-- An event on a line of its own is one more event. -/
theorem eventsIn_append_line {contents line : Octets} {e : Event} (h : IsWhole contents)
    (hl : lineFeed ∉ line) (hb : isBlankLine line = false) (hr : Event.read line = .ok e) :
    eventsIn (contents ++ (line ++ [lineFeed])) = eventsIn contents ++ [e] := by
  rw [eventsIn_append h, eventsIn_line hl hb, hr]
  rfl

/-- A damaged line is one of the lines, and is refused for the fault that it is recorded with. -/
theorem of_mem_damaged {ls : List Octets} {x : Damaged} (h : x ∈ (sift ls).damaged) :
    x.line ∈ ls ∧ Event.read x.line = .error x.fault := by
  induction ls using sift_induction with
  | nil => cases h
  | blank line ls hb hs ih =>
    rw [hs] at h
    exact (ih h).imp_left (List.mem_cons_of_mem line)
  | event line ls e hb hr hs ih =>
    rw [hs] at h
    exact (ih h).imp_left (List.mem_cons_of_mem line)
  | damaged line ls f hb hr hs ih =>
    rw [hs] at h
    rcases List.mem_cons.mp h with rfl | h
    · exact ⟨List.mem_cons_self, hr⟩
    · exact (ih h).imp_left (List.mem_cons_of_mem line)

/-- A line behind complete lines is one more line, and nothing is behind it. -/
theorem mem_lines_append_line {contents line x : Octets} (h : IsWhole contents)
    (hl : lineFeed ∉ line) (hx : x ∈ lines (contents ++ (line ++ [lineFeed]))) :
    x ∈ lines contents ∨ x = line ∨ x = [] := by
  have hline : lines (line ++ [lineFeed]) = [line, []] := by
    rw [lines_append_feed, lines_of_not_mem hl, lines_nil, List.singleton_append]
  rcases h with rfl | ⟨front, rfl⟩
  · rw [List.nil_append, hline] at hx
    rcases List.mem_cons.mp hx with hx | hx
    · exact .inr (.inl hx)
    · exact .inr (.inr (List.mem_singleton.mp hx))
  · rw [List.append_assoc, List.singleton_append, lines_append_feed, hline] at hx
    rw [lines_append_feed]
    rcases List.mem_append.mp hx with hx | hx
    · exact .inl (List.mem_append_left _ hx)
    · rcases List.mem_cons.mp hx with hx | hx
      · exact .inr (.inl hx)
      · exact .inr (.inr (List.mem_singleton.mp hx))

/-! ## What is kept -/

theorem sift_kept {ls : List Octets} (h : ∀ l ∈ ls, lineFeed ∉ l) :
    sift (lines (sift ls).kept) = ⟨(sift ls).events, (sift ls).kept, []⟩ := by
  induction ls using sift_induction with
  | nil => rfl
  | blank line ls hb hs ih =>
    rw [hs]
    exact ih (List.forall_mem_of_forall_mem_cons h)
  | event line ls e hb hr hs ih =>
    have hl : lineFeed ∉ line := h line List.mem_cons_self
    rw [hs]
    show sift (lines (line ++ lineFeed :: (sift ls).kept)) = _
    rw [lines_append_feed, lines_of_not_mem hl, List.singleton_append, sift_cons,
      ih (List.forall_mem_of_forall_mem_cons h), siftBefore_event hb hr]
  | damaged line ls f hb hr hs ih =>
    rw [hs]
    exact ih (List.forall_mem_of_forall_mem_cons h)

/-- What is kept of a file holds its events. -/
theorem eventsIn_kept (contents : Octets) :
    eventsIn (sift (lines contents)).kept = eventsIn contents := by
  rw [eventsIn, sift_kept (not_mem_lines contents), eventsIn]

/-- What is kept of a file is not damaged. -/
theorem damaged_kept (contents : Octets) :
    (sift (lines (sift (lines contents)).kept)).damaged = [] := by
  rw [sift_kept (not_mem_lines contents)]

/-- No line is kept that was not there. -/
theorem mem_lines_kept {ls : List Octets} (h : ∀ l ∈ ls, lineFeed ∉ l) {x : Octets}
    (hx : x ∈ lines (sift ls).kept) : x ∈ ls ∨ x = [] := by
  induction ls using sift_induction with
  | nil => exact .inr (List.mem_singleton.mp hx)
  | blank line ls hb hs ih =>
    rw [hs] at hx
    exact (ih (List.forall_mem_of_forall_mem_cons h) hx).imp_left (List.mem_cons_of_mem line)
  | event line ls e hb hr hs ih =>
    rw [hs, lines_append_feed, lines_of_not_mem (h line List.mem_cons_self),
      List.singleton_append] at hx
    rcases List.mem_cons.mp hx with rfl | hx
    · exact .inl List.mem_cons_self
    · exact (ih (List.forall_mem_of_forall_mem_cons h) hx).imp_left (List.mem_cons_of_mem line)
  | damaged line ls f hb hr hs ih =>
    rw [hs] at hx
    exact (ih (List.forall_mem_of_forall_mem_cons h) hx).imp_left (List.mem_cons_of_mem line)

theorem isWhole_kept (ls : List Octets) : IsWhole (sift ls).kept := by
  induction ls using sift_induction with
  | nil => exact .inl rfl
  | blank line ls hb hs ih =>
    rw [hs]
    exact ih
  | event line ls e hb hr hs ih =>
    rw [hs]
    refine .inr ?_
    rcases ih with hk | ⟨front, hk⟩
    · exact ⟨line, by rw [hk]⟩
    · exact ⟨line ++ lineFeed :: front, by rw [hk]; simp⟩
  | damaged line ls f hb hr hs ih =>
    rw [hs]
    exact ih

/-- Kept and damaged lines together are no longer than all lines. -/
theorem length_kept_add (ls : List Octets) :
    (sift ls).kept.length + 2 * (sift ls).damaged.length ≤ (joined ls).length := by
  induction ls using sift_induction with
  | nil => exact le_refl _
  | blank line ls hb hs ih =>
    rw [hs, joined_cons, List.length_append, List.length_cons]
    omega
  | event line ls e hb hr hs ih =>
    rw [hs, joined_cons]
    simp only [List.length_append, List.length_cons]
    omega
  | damaged line ls f hb hr hs ih =>
    have hpos : 0 < line.length := by
      -- an empty line is blank
      cases line with
      | nil => exact absurd hb (by decide)
      | cons b bs => exact Nat.succ_pos _
    rw [hs, joined_cons]
    simp only [List.length_append, List.length_cons]
    omega

/-- Setting damaged lines aside makes a file smaller. -/
theorem length_kept_le {contents : Octets} (h : (sift (lines contents)).damaged ≠ []) :
    (sift (lines contents)).kept.length ≤ contents.length := by
  have hsum := length_kept_add (lines contents)
  have hpos := List.length_pos_iff.mpr h
  rw [joined_lines, List.length_append, List.length_singleton] at hsum
  omega

/-! ## Which line is which -/

/-- The line is neither blank nor an event. -/
def isDamagedLine (line : Octets) : Bool :=
  !isBlankLine line && !(Event.read line).isOk

/-- The line is an event. -/
def isEventLine (line : Octets) : Bool :=
  !isBlankLine line && (Event.read line).isOk

theorem isDamagedLine_blank {line : Octets} (hb : isBlankLine line = true) :
    isDamagedLine line = false := by
  simp [isDamagedLine, hb]

theorem isDamagedLine_ok {line : Octets} {e : Event} (hr : Event.read line = .ok e) :
    isDamagedLine line = false := by
  simp [isDamagedLine, hr, Except.isOk, Except.toBool]

theorem isDamagedLine_error {line : Octets} {f : JsonFault} (hb : isBlankLine line = false)
    (hr : Event.read line = .error f) : isDamagedLine line = true := by
  simp [isDamagedLine, hb, hr, Except.isOk, Except.toBool]

theorem isEventLine_blank {line : Octets} (hb : isBlankLine line = true) :
    isEventLine line = false := by
  simp [isEventLine, hb]

theorem isEventLine_ok {line : Octets} {e : Event} (hb : isBlankLine line = false)
    (hr : Event.read line = .ok e) : isEventLine line = true := by
  simp [isEventLine, hb, hr, Except.isOk, Except.toBool]

theorem isEventLine_error {line : Octets} {f : JsonFault} (hr : Event.read line = .error f) :
    isEventLine line = false := by
  simp [isEventLine, hr, Except.isOk, Except.toBool]

theorem map_line_damaged (ls : List Octets) :
    (sift ls).damaged.map Damaged.line = ls.filter isDamagedLine := by
  induction ls using sift_induction with
  | nil => rfl
  | blank line ls hb hs ih =>
    rw [hs, ih, List.filter_cons, isDamagedLine_blank hb]
    rfl
  | event line ls e hb hr hs ih =>
    rw [hs, ih, List.filter_cons, isDamagedLine_ok hr]
    rfl
  | damaged line ls f hb hr hs ih =>
    rw [hs, List.map_cons, ih, List.filter_cons, isDamagedLine_error hb hr]
    rfl

/-- What is kept are the lines of the events. -/
theorem kept_eq_joined (ls : List Octets) : (sift ls).kept = joined (ls.filter isEventLine) := by
  induction ls using sift_induction with
  | nil => rfl
  | blank line ls hb hs ih =>
    rw [hs, ih, List.filter_cons, isEventLine_blank hb]
    rfl
  | event line ls e hb hr hs ih =>
    rw [hs, ih, List.filter_cons, isEventLine_ok hb hr, if_pos rfl, joined_cons]
  | damaged line ls f hb hr hs ih =>
    rw [hs, ih, List.filter_cons, isEventLine_error hr]
    rfl

/-- The events are those that the lines of events are read as. -/
theorem events_eq_filterMap (ls : List Octets) :
    (sift ls).events = (ls.filter isEventLine).filterMap fun line => (Event.read line).toOption := by
  induction ls using sift_induction with
  | nil => rfl
  | blank line ls hb hs ih =>
    rw [hs, ih, List.filter_cons, isEventLine_blank hb]
    rfl
  | event line ls e hb hr hs ih =>
    rw [hs, ih, List.filter_cons, isEventLine_ok hb hr, if_pos rfl, List.filterMap_cons, hr]
    rfl
  | damaged line ls f hb hr hs ih =>
    rw [hs, ih, List.filter_cons, isEventLine_error hr]
    rfl

/-- A line stays when something is put behind complete lines. -/
theorem mem_lines_append {contents x : Octets} (h : IsWhole contents) (hx : x ∈ lines contents)
    (hne : x ≠ []) (bs : Octets) : x ∈ lines (contents ++ bs) := by
  rcases h with rfl | ⟨front, rfl⟩
  · exact absurd (List.mem_singleton.mp hx) hne
  · rw [lines_append_feed, lines_nil] at hx
    rw [List.append_assoc, List.singleton_append, lines_append_feed]
    rcases List.mem_append.mp hx with hx | hx
    · exact List.mem_append_left _ hx
    · exact absurd (List.mem_singleton.mp hx) hne

theorem ne_nil_of_isDamagedLine {line : Octets} (h : isDamagedLine line = true) : line ≠ [] := by
  rintro rfl
  exact absurd h (by decide)

theorem IsWhole.append {xs ys : Octets} (hx : IsWhole xs) (hy : IsWhole ys) : IsWhole (xs ++ ys) := by
  rcases hy with rfl | ⟨front, rfl⟩
  · rw [List.append_nil]
    exact hx
  · exact .inr ⟨xs ++ front, (List.append_assoc _ _ _).symm⟩

/-- A dead letter is a line, with its line feed. -/
theorem isWhole_letters (letters : List DeadLetter) :
    IsWhole (letters.flatMap DeadLetter.written) := by
  induction letters with
  | nil => exact .inl rfl
  | cons l letters ih =>
    have hl : IsWhole l.written := by
      obtain ⟨members, hm⟩ : ∃ members,
          l.written = '\x7b'.toUInt8 :: (members ++ ['\x7d'.toUInt8, lineFeed]) := ⟨_, rfl⟩
      exact .inr ⟨'\x7b'.toUInt8 :: (members ++ ['\x7d'.toUInt8]), by simp [hm]⟩
    rw [List.flatMap_cons]
    exact hl.append ih

end AuditRelay.Spool
