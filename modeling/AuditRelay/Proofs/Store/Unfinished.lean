import AuditRelay.Proofs.Json.Printed
import AuditRelay.Proofs.Json.RoundTrip
import AuditRelay.Proofs.Store.SetAside

/-!
# AuditRelay.Proofs.Store.Unfinished — events behind an unfinished line

An event is put behind what its file holds, whatever that is. When the file does not end with a line
feed, because an earlier write broke off, the event comes into the line that has been left unfinished.
`Depot.Fills` is a run in which events are acknowledged into one file and nothing else changes it. The
read that comes to the file gives all of these events, and sets aside no other lines than those that
were damaged before, exactly if nothing but blanks of JSON was behind the last line feed
(`unfinished_line_kept_apart_iff`). Else the first of the events shares the fate of the unfinished line
(`acknowledged_event_swallowed`); the later ones have lines of their own.
-/

namespace AuditRelay

open Spool (fileName eventStem deadLetterStem lineFeed lines lines_nil lines_ne_nil lines_feed lines_cons
  lines_append_feed lines_of_not_mem joined joined_cons sift isBlankLine isDamagedLine eventsIn eventsOf
  eventLines damagedIn damagedLines consulted firstBatch LettersOf DeadLetter stampLimit tempName)

/-! ## The last line -/

namespace Spool

variable {c w : Octets}

/-- What is behind the last line feed. -/
def lastLine (c : Octets) : Octets := (lines c).getLast (lines_ne_nil c)

theorem dropLast_lines_append (c : Octets) : (lines c).dropLast ++ [lastLine c] = lines c :=
  List.dropLast_append_getLast (lines_ne_nil c)

/-- Octets without a line feed come into the last line. -/
theorem lines_append_of_not_mem (hw : lineFeed ∉ w) (c : Octets) :
    lines (c ++ w) = (lines c).dropLast ++ [lastLine c ++ w] := by
  induction c with
  | nil => exact lines_of_not_mem hw
  | cons b c ih =>
    have hlast := dropLast_lines_append c
    by_cases hb : b = lineFeed
    · subst hb
      simp only [lastLine, lines_feed, List.cons_append, ih,
        List.dropLast_cons_of_ne_nil (lines_ne_nil c), List.getLast_cons (lines_ne_nil c)]
    · cases hfront : (lines c).dropLast with
      | nil =>
        -- there is only one line
        rw [hfront, List.nil_append] at hlast ih
        have hc := lines_cons hb hlast.symm
        rw [List.cons_append, lines_cons hb ih]
        simp only [lastLine, hc, List.dropLast_singleton, List.getLast_singleton, List.nil_append,
          List.cons_append]
      | cons first front =>
        rw [hfront, List.cons_append] at hlast ih
        have hc : lines (b :: c) = ((b :: first) :: front) ++ [lastLine c] :=
          lines_cons hb hlast.symm
        have hsame : lastLine (b :: c) = lastLine c := by
          simp only [lastLine, hc, List.getLast_append_singleton]
        rw [List.cons_append, lines_cons hb ih, hc, hsame, List.dropLast_concat]
        rfl

/-! ## Blanks before an event -/

/-- Blanks of JSON before a text do not matter. -/
theorem read_append_of_blank {t : Octets} (ht : ∀ b ∈ t, Scan.isJsonBlank b = true) (w : Octets) :
    Event.read (t ++ w) = Event.read w := by
  induction t with
  | nil => rfl
  | cons b t ih =>
    have hskip : Scan.skipBlanks (b :: (t ++ w)) = Scan.skipBlanks (t ++ w) := by
      rw [Scan.skipBlanks, if_pos (ht b List.mem_cons_self)]
    rw [← ih fun b' hb' => ht b' (List.mem_cons_of_mem b hb')]
    simp only [Event.read, Event.reading, List.cons_append, hskip]

/-- A form feed is blank in a file, but no blank of JSON, so no event is read behind it. -/
theorem blank_of_read {t w : Octets} {e : Event} (ht : isBlankLine t = true)
    (hr : Event.read (t ++ w) = .ok e) : ∀ b ∈ t, Scan.isJsonBlank b = true := by
  induction t with
  | nil => exact fun b hb => absurd hb List.not_mem_nil
  | cons b t ih =>
    rw [isBlankLine, List.all_cons, Bool.and_eq_true] at ht
    cases hb : Scan.isJsonBlank b with
    | true =>
      have hskip : Scan.skipBlanks (b :: (t ++ w)) = Scan.skipBlanks (t ++ w) := by
        rw [Scan.skipBlanks, if_pos hb]
      have hr' : Event.read (t ++ w) = .ok e := by
        rw [← hr]
        simp only [Event.read, Event.reading, List.cons_append, hskip]
      intro b' hb'
      rcases List.mem_cons.mp hb' with rfl | hb'
      · exact hb
      · exact ih ht.2 hr' b' hb'
    | false =>
      have hfeed : b = 12 := by
        have hblank := ht.1
        simp only [Text.isBlankOctet, Bool.or_eq_true, beq_iff_eq] at hblank
        rcases hblank with (((rfl | rfl) | rfl) | rfl) | rfl
        · exact absurd hb (by decide)
        · exact absurd hb (by decide)
        · rfl
        · exact absurd hb (by decide)
        · exact absurd hb (by decide)
      subst hfeed
      rw [List.cons_append, Event.read, Event.reading, Scan.skipBlanks_cons hb] at hr
      simp +decide [Scan.complete, Scan.refuse, Scan.seenAt] at hr

/-! ## What the lines come to -/

theorem isBlankLine_append_written (t : Octets) (e : Event) : isBlankLine (t ++ e.written) = false := by
  have hbrace : isBlankLine e.written = false := rfl
  rw [isBlankLine, List.all_append, Bool.and_eq_false_iff]
  exact .inr hbrace

/-- Events that decode from their own lines, each on a line of its own. -/
theorem sift_joined {es : List Event} (hown : ∀ e ∈ es, Event.read e.written = .ok e) :
    eventsIn (joined (es.map Event.written)) = es ∧
    damagedLines (joined (es.map Event.written)) = [] := by
  induction es with
  | nil => exact ⟨rfl, rfl⟩
  | cons e es ih =>
    obtain ⟨hevents, hdamaged⟩ := ih fun a ha => hown a (List.mem_cons_of_mem e ha)
    have hread := hown e List.mem_cons_self
    have hblank : isBlankLine e.written = false := rfl
    have hlines : lines (joined ((e :: es).map Event.written)) =
        e.written :: lines (joined (es.map Event.written)) := by
      rw [List.map_cons, joined_cons, lines_append_feed, lines_of_not_mem e.feed_not_mem_written,
        List.singleton_append]
    have hsound : isDamagedLine e.written = false := isDamagedLine_ok hread
    constructor
    · rw [eventsIn, hlines, sift_cons, siftBefore_event hblank hread]
      exact congrArg (e :: ·) hevents
    · rw [damagedLines, hlines, List.filter_cons, hsound]
      exact hdamaged

/-- The events and the damaged lines of a file, the last line taken by itself. -/
theorem sift_lastLine (c : Octets) :
    eventsIn c = (sift (lines c).dropLast).events ++ (sift [lastLine c]).events ∧
    damagedLines c = (lines c).dropLast.filter isDamagedLine ++ [lastLine c].filter isDamagedLine := by
  have hlast := dropLast_lines_append c
  constructor
  · have hsplit := congrArg (fun ls => (sift ls).events) hlast
    simp only [sift_append] at hsplit
    exact hsplit.symm
  · rw [damagedLines, ← List.filter_append, hlast]

/-- The first event comes into the last line, and the others have lines of their own. -/
theorem sift_behind (c : Octets) (e : Event) {es : List Event}
    (hown : ∀ a ∈ es, Event.read a.written = .ok a) :
    eventsIn (c ++ joined ((e :: es).map Event.written)) =
      (sift (lines c).dropLast).events ++ (sift [lastLine c ++ e.written]).events ++ es ∧
    damagedLines (c ++ joined ((e :: es).map Event.written)) =
      (lines c).dropLast.filter isDamagedLine ++ [lastLine c ++ e.written].filter isDamagedLine := by
  obtain ⟨hevents, hdamaged⟩ := sift_joined hown
  have hlines : lines (c ++ joined ((e :: es).map Event.written)) =
      (lines c).dropLast ++ [lastLine c ++ e.written] ++ lines (joined (es.map Event.written)) := by
    rw [List.map_cons, joined_cons, ← List.append_assoc, lines_append_feed,
      lines_append_of_not_mem e.feed_not_mem_written]
  constructor
  · rw [eventsIn, hlines, sift_append, sift_append]
    exact congrArg (_ ++ ·) hevents
  · rw [damagedLines, hlines, List.filter_append, List.filter_append]
    have hnone : (lines (joined (es.map Event.written))).filter isDamagedLine = [] := hdamaged
    rw [hnone, List.append_nil]

/-- If the line with an event behind it is this event, and was not damaged before, then it was blank. -/
theorem blank_of_events {t line : Octets} {e : Event} (hnonblank : isBlankLine line = false)
    (hevents : (sift [line]).events = (sift [t]).events ++ [e])
    (hdamaged : [line].filter isDamagedLine = [t].filter isDamagedLine) :
    Event.read line = .ok e ∧ isBlankLine t = true := by
  rw [events_of_line, events_of_line, hnonblank, if_neg Bool.false_ne_true] at hevents
  cases hr : Event.read line with
  | error f =>
    rw [hr] at hevents
    exact absurd hevents.symm (List.append_ne_nil_of_right_ne_nil _ (List.cons_ne_nil e []))
  | ok a =>
    have hone : (if isBlankLine t = true then [] else (Event.read t).toOption.toList) = [] := by
      have hlength := congrArg List.length hevents
      rw [hr, List.length_append] at hlength
      exact List.length_eq_zero_iff.mp (Nat.succ.inj hlength).symm
    rw [hone, hr] at hevents
    refine ⟨congrArg Except.ok (List.cons.inj hevents).1, ?_⟩
    rw [List.filter_singleton, List.filter_singleton, isDamagedLine_ok hr] at hdamaged
    cases hb : isBlankLine t with
    | true => rfl
    | false =>
      -- the line would be an event or damaged
      cases hr' : Event.read t with
      | ok a' =>
        rw [hb, hr'] at hone
        cases hone
      | error f =>
        rw [isDamagedLine_error hb hr'] at hdamaged
        cases hdamaged

/-- All events come out and no more lines are damaged, exactly if only blanks of JSON were in the last
line. -/
theorem kept_apart_iff (c : Octets) {e : Event} {es : List Event}
    (hown : ∀ a ∈ e :: es, Event.read a.written = .ok a) :
    (eventsIn (c ++ joined ((e :: es).map Event.written)) = eventsIn c ++ e :: es ∧
      damagedLines (c ++ joined ((e :: es).map Event.written)) = damagedLines c) ↔
    ∀ b ∈ lastLine c, Scan.isJsonBlank b = true := by
  have hlater : ∀ a ∈ es, Event.read a.written = .ok a :=
    fun a ha => hown a (List.mem_cons_of_mem e ha)
  have hread := hown e List.mem_cons_self
  have hnonblank := isBlankLine_append_written (lastLine c) e
  obtain ⟨hevents, hdamaged⟩ := sift_behind c e hlater
  obtain ⟨hevents₀, hdamaged₀⟩ := sift_lastLine c
  rw [hevents, hdamaged, hevents₀, hdamaged₀]
  constructor
  · rintro ⟨heq, hsame⟩
    rw [List.append_assoc, List.append_assoc, List.append_right_inj] at heq
    have hline : (sift [lastLine c ++ e.written]).events = (sift [lastLine c]).events ++ [e] := by
      rw [← List.append_cancel_right_eq _ es, heq, List.append_assoc, List.singleton_append]
    rw [List.append_right_inj] at hsame
    obtain ⟨hr, hblank⟩ := blank_of_events hnonblank hline hsame
    exact blank_of_read hblank hr
  · intro hjson
    have hr : Event.read (lastLine c ++ e.written) = .ok e := by
      rw [read_append_of_blank hjson, hread]
    have hblank : isBlankLine (lastLine c) = true := by
      rw [isBlankLine, List.all_eq_true]
      intro b hb
      have hb := hjson b hb
      simp only [Scan.isJsonBlank, Bool.or_eq_true, beq_iff_eq] at hb
      rcases hb with ((rfl | rfl) | rfl) | rfl <;> decide
    constructor
    · rw [events_of_line, events_of_line, hnonblank, hblank, hr, List.append_assoc, List.append_assoc]
      rfl
    · rw [List.filter_singleton, List.filter_singleton, isDamagedLine_ok hr,
        isDamagedLine_blank hblank]
      rfl

/-! ## Reading where nothing is refused -/

variable {p : Place} {host : Host} {s s' : Spool} {fs fs' : Named Octets} {ls ls' : Nat → Octets}
  {name : String}

/-- Dead letters for the damaged lines of these files have been put behind those that were there, each
file's letters into one file, and no others. -/
def PutsAside (reads : Named Octets) (ls ls' : Nat → Octets) : Prop :=
  ∃ sets : List (Nat × List DeadLetter),
    List.Forall₂ (fun f letters => LettersOf f letters.2) reads sets ∧
    ∀ n, ls' n = ls n ++ (sets.filter (·.1 = n)).flatMap fun letters =>
      letters.2.flatMap DeadLetter.written

theorem putsAside_nil (ls : Nat → Octets) : PutsAside [] ls ls := by
  refine ⟨[], .nil, fun n => ?_⟩
  rw [List.filter_nil, List.flatMap_nil, List.append_nil]

theorem PutsAside.cons {reads : Named Octets} {ls₁ ls₂ ls₃ : Nat → Octets} {f : String × Octets}
    (h : PutsAside [f] ls₁ ls₂) (h' : PutsAside reads ls₂ ls₃) : PutsAside (f :: reads) ls₁ ls₃ := by
  obtain ⟨sets, hsets, htext⟩ := h
  obtain ⟨sets', hsets', htext'⟩ := h'
  refine ⟨sets ++ sets', List.rel_append hsets hsets', fun n => ?_⟩
  rw [htext', htext, List.filter_append, List.flatMap_append, List.append_assoc]

theorem FileRead.putsAside {c : Octets} {r : Except Fault (List Event)}
    (h : FileRead p host (s.released name) fs ls name c r s' fs' ls') (hp : p.Serves host)
    (hfit : p.Fits name ∧ p.Fits (tempName name)) (hlimit : s'.highestStamp < stampLimit) :
    r = .ok (eventsIn c) ∧ PutsAside [(name, c)] ls ls' := by
  cases h with
  | unread op f hop hno => exact absurd ⟨hp.willing, hfit.1⟩ hno
  | clean hd =>
    refine ⟨rfl, [(0, [])], .cons (lettersOf_clean name hd) .nil, fun n => ?_⟩
    by_cases hn : 0 = n
    · simp [hn]
    · simp [hn]
  | exhausted hd hmax => exact absurd hlimit (Nat.not_lt.mpr (stampLimit_le_maxStamp.trans hmax))
  | unset n ls' hd hn hls hno => exact absurd ⟨hp, hlimit⟩ hno
  | unreplaced n letters hd hn hletters hno => exact absurd ⟨hp, hfit⟩ hno
  | replaced n letters hd hn hletters =>
    refine ⟨rfl, [(n, letters)], .cons hletters.lettersOf .nil, fun m => ?_⟩
    by_cases hm : n = m
    · subst hm
      simp
    · rw [Function.update_of_ne (Ne.symm hm)]
      simp [hm]

/-- A read gives the first batch, and sets aside the damaged lines of the files that it comes to. -/
theorem BatchRead.putsAside {r : Except Fault (Option Batch)}
    (h : BatchRead p host s fs ls r s' fs' ls') (hp : p.Serves host) (ho : Named.IsOrdered fs)
    (hfits : ∀ f ∈ fs, p.Fits f.1 ∧ p.Fits (tempName f.1)) (hlimit : s'.highestStamp < stampLimit) :
    r = .ok (firstBatch fs) ∧ PutsAside (consulted fs) ls ls' := by
  induction h with
  | nothing s ls => exact ⟨rfl, putsAside_nil ls⟩
  | failed s name c rest ls f s' fs' ls' hr =>
    cases (hr.putsAside hp (hfits _ List.mem_cons_self) hlimit).1
  | batch s name c rest ls s' fs' ls' hne hr =>
    have hlines : eventLines c ≠ [] := mt (eventsIn_eq_nil_iff c).mpr hne
    rw [consulted, firstBatch, if_neg hlines, if_neg hlines, eventsIn_eq]
    exact ⟨rfl, (hr.putsAside hp (hfits _ List.mem_cons_self) hlimit).2⟩
  | unremoved s name c rest ls f s' fs' ls' he hr hno =>
    exact absurd ⟨hp.willing, (hfits _ List.mem_cons_self).1⟩ hno
  | pass s name c c' rest ls s₁ ls₁ size he hr hsize hrest ih =>
    have ho' := (List.pairwise_cons.mp ho).2
    -- stamps only grow
    have hlimit₁ : s₁.highestStamp < stampLimit :=
      lt_of_le_of_lt hrest.follows.stamp hlimit
    obtain ⟨hanswer, haside⟩ := ih ho' (fun f hf => hfits f (List.mem_cons_of_mem _ hf)) hlimit
    have hlines : eventLines c = [] := (eventsIn_eq_nil_iff c).mp he
    rw [consulted, firstBatch, if_pos hlines, if_pos hlines]
    exact ⟨hanswer, (hr.putsAside hp (hfits _ List.mem_cons_self) hlimit₁).2.cons haside⟩

/-- If a file that a read comes to has events, they are the batch. -/
theorem firstBatch_of_consulted {c : Octets} (h : (name, c) ∈ consulted fs) (he : eventsIn c ≠ []) :
    firstBatch fs = some ⟨eventsIn c, .file name⟩ := by
  have hlines : eventLines c ≠ [] := mt (eventsIn_eq_nil_iff c).mpr he
  induction fs with
  | nil => cases h
  | cons f rest ih =>
    rw [consulted] at h
    rw [firstBatch]
    split at h
    · rename_i hnone
      rw [if_pos hnone]
      rcases List.mem_cons.mp h with rfl | h
      · exact absurd hnone hlines
      · exact ih h
    · rename_i hsome
      obtain rfl := List.mem_singleton.mp h
      rw [if_neg hsome, eventsIn_eq]

/-- A batch has the events of its file. -/
theorem of_firstBatch {es : List Event} (h : firstBatch fs = some ⟨es, .file name⟩) :
    ∃ c, (name, c) ∈ fs ∧ es = eventsIn c := by
  induction fs with
  | nil => cases h
  | cons f rest ih =>
    rw [firstBatch] at h
    split at h
    · obtain ⟨c, hc, hes⟩ := ih h
      exact ⟨c, List.mem_cons_of_mem f hc, hes⟩
    · cases h
      exact ⟨f.2, List.mem_cons_self, (eventsIn_eq f.2).symm⟩

theorem mem_of_consulted {f : String × Octets} (h : f ∈ consulted fs) : f ∈ fs := by
  induction fs with
  | nil => cases h
  | cons g rest ih =>
    rw [consulted] at h
    split at h
    · rcases List.mem_cons.mp h with rfl | h
      · exact List.mem_cons_self
      · exact List.mem_cons_of_mem g (ih h)
    · obtain rfl := List.mem_singleton.mp h
      exact List.mem_cons_self

end Spool

/-! ## A file that is filled -/

namespace Depot

/-- A run in which these events, and nothing else, come into a file: each write of one of them is
acknowledged, and goes to this file. Any other operation leaves the file as it is. -/
inductive Fills (name : String) (x : Depot) : Depot → List Event → Prop where
  | refl : Fills name x x []
  | wrote {y z : Depot} {es : List Event} (h : Fills name x y es) (e : Event)
      (hs : Step y (.write e (.ok ())) z)
      (hcur : ∃ s, z.spool = some s ∧ s.current = some name) : Fills name x z (es ++ [e])
  | other {y z : Depot} {es : List Event} (h : Fills name x y es) {l : Exchange} (hs : Step y l z)
      (hsame : Named.get? z.disk.files name = Named.get? y.disk.files name) : Fills name x z es

variable {p : Place} {host : Host} {x y z : Depot} {fs fs' : Named Octets} {ls ls' : Nat → Octets}
  {name : String} {es : List Event}

/-- An acknowledged event has been put behind the file that is current then. -/
theorem Stands.acknowledged (h : y.Stands p host fs ls) (hp : p.IsUnlinked) {e : Event}
    (hs : Step y (.write e (.ok ())) z) {s : Spool} (hz : z.spool = some s)
    (hcur : s.current = some name) :
    z.disk.files = Named.insert name
      ((Named.get? fs name).getD [] ++ (e.written ++ [lineFeed])) fs := by
  obtain ⟨fs', ls', hhouses, hturn⟩ := h.turn hp hs
  cases hturn with
  | wrote t t' _ _ d fs' ht hw =>
    obtain ⟨n, hcurrent, rfl⟩ := hw.appended
    obtain rfl := Option.some.inj hz
    rw [hcurrent] at hcur
    obtain rfl := Option.some.inj hcur
    exact hhouses.files_eq
  | still l s d out hl => exact hl.elim

/-- The file holds what it held, and then the lines of the events. -/
theorem Fills.contents (hr : Fills name x y es) (h : x.Stands p host fs ls) (hp : p.IsUnlinked) :
    ∃ fs' ls', y.Stands p host fs' ls' ∧ (Named.get? fs' name).getD [] =
      (Named.get? fs name).getD [] ++ joined (es.map Event.written) := by
  induction hr with
  | refl => exact ⟨fs, ls, h, (List.append_nil _).symm⟩
  | wrote _ e hs hcur ih =>
    obtain ⟨fs₁, ls₁, hy, hheld⟩ := ih
    obtain ⟨s, hspool, hcurrent⟩ := hcur
    have hfiles := hy.acknowledged hp hs hspool hcurrent
    obtain ⟨fs₂, ls₂, hz, -⟩ := hy.step hp hs
    refine ⟨fs₂, ls₂, hz, ?_⟩
    rw [← hz.houses.files_eq, hfiles, Named.get?_insert_self, Option.getD_some, hheld, List.map_append,
      joined, joined, List.flatMap_append, List.append_assoc, List.map_singleton,
      List.flatMap_singleton]
  | other _ hs hsame ih =>
    obtain ⟨fs₁, ls₁, hy, hheld⟩ := ih
    obtain ⟨fs₂, ls₂, hz, -⟩ := hy.step hp hs
    rw [hz.houses.files_eq, hy.houses.files_eq] at hsame
    exact ⟨fs₂, ls₂, hz, by rw [hsame, hheld]⟩

end Depot

theorem Place.Serves.isUnlinked {p : Place} {host : Host} (h : p.Serves host) : p.IsUnlinked := by
  have hnone : ∀ name target, Named.get? p.found name ≠ some (.link target) := by
    intro name target ht
    obtain ⟨c, mode, hnode⟩ := h.regular name _ ht
    cases hnode
  exact ⟨fun name _ => hnone name, fun n => hnone _⟩

/-- Events are acknowledged into a file that held anything, perhaps an unfinished last line. The next
read that comes to the file sets aside its damaged lines, once each, and gives its events, the last of
which are those that were written second and later. It gives all of them, and sets aside no other lines
than those that were damaged before, exactly if only blanks of JSON were behind the last line feed. -/
theorem unfinished_line_kept_apart_iff {p : Place} {host : Host} (hp : p.Serves host)
    {x y z : Depot} {fs : Named Octets} {ls : Nat → Octets} (hx : x.Stands p host fs ls)
    {name : String} {e : Event} {es : List Event} (hrun : Depot.Fills name x y (e :: es))
    (hown : ∀ a ∈ e :: es, Event.read a.written = .ok a)
    {answer : Except Fault (Option Batch)} (hread : Depot.Step y (.read answer) z)
    (hreach : ∃ c, (name, c) ∈ consulted y.disk.files)
    (hfits : ∀ f ∈ y.disk.files, p.Fits f.1 ∧ p.Fits (tempName f.1)) (hlimit : z.InLimit) :
    ∃ before after, before = (Named.get? fs name).getD [] ∧
      after = before ++ joined ((e :: es).map Event.written) ∧
      (name, after) ∈ consulted y.disk.files ∧
      Spool.PutsAside (consulted y.disk.files) y.disk.letters z.disk.letters ∧
      answer = .ok (firstBatch y.disk.files) ∧
      es <:+ eventsIn after ∧
      (answer = .ok (some ⟨eventsIn before ++ e :: es, .file name⟩) ∧
          damagedLines after = damagedLines before ↔
        ∀ b ∈ Spool.lastLine before, Scan.isJsonBlank b = true) := by
  have hlater : ∀ a ∈ es, Event.read a.written = .ok a :=
    fun a ha => hown a (List.mem_cons_of_mem e ha)
  obtain ⟨fs', ls', hy, hheld⟩ := hrun.contents hx hp.isUnlinked
  have hfiles := hy.houses.files_eq
  have ho := hy.houses.ordered
  obtain ⟨c, hc⟩ := hreach
  -- the contents of the file when it is read
  have hget : Named.get? fs' name = some c := by
    rw [← hfiles] at ho ⊢
    exact ho.get?_of_mem (Spool.mem_of_consulted hc)
  rw [hget, Option.getD_some] at hheld
  obtain ⟨hevents, -⟩ := Spool.sift_behind ((Named.get? fs name).getD []) e hlater
  refine ⟨(Named.get? fs name).getD [], c, rfl, hheld, hc, ?_⟩
  -- what the read does
  have hbatch : answer = .ok (firstBatch fs') ∧
      Spool.PutsAside (consulted fs') y.disk.letters z.disk.letters := by
    rw [hfiles] at hfits
    obtain ⟨fs₂, ls₂, hz, hturn⟩ := hy.step hp.isUnlinked hread
    rw [hy.houses.letters_eq, hz.houses.letters_eq]
    cases hturn with
    | read s s' r d _ _ hs hr => exact hr.putsAside hp ho hfits (hlimit s' rfl)
    | unlisted s f d hs hno => exact absurd hp.willing hno
    | still l s d out hl => exact hl.elim
  obtain ⟨hanswer, haside⟩ := hbatch
  rw [hfiles] at hc ⊢
  refine ⟨haside, hanswer, ?_, ?_⟩
  · rw [hheld, hevents]
    exact List.suffix_append _ es
  · rw [← Spool.kept_apart_iff _ hown, ← hheld, hanswer]
    refine and_congr_left fun _ => ⟨fun heq => ?_, fun heq => ?_⟩
    · -- the batch is of this file
      obtain ⟨c', hmem, hes⟩ := Spool.of_firstBatch (Except.ok.inj heq)
      rw [ho.get?_of_mem hmem, Option.some.injEq] at hget
      rw [hes, hget]
    · have hne : eventsIn c ≠ [] := by
        rw [heq]
        exact List.append_ne_nil_of_right_ne_nil _ (List.cons_ne_nil e es)
      rw [Spool.firstBatch_of_consulted hc hne, heq]

namespace Depot

/-- A file with an event, a damaged line, and blanks behind the last line feed. -/
def looseEntries : Entries :=
  [(fileName eventStem 1, .file (Text.octets "\x7b\"id\":\"a\"\x7d\nx\n \t") Disk.privateFile)]

/-- An open spool whose current file it is. -/
def looseOpen : Depot :=
  ⟨some ⟨100, none, some (fileName eventStem 1), 1, 15, .zero true⟩, .holding looseEntries, []⟩

/-- An event is written. -/
def looseWritten : Depot := looseOpen.written (looseOpen.spool.get rfl) (.new "b")

theorem looseWritten_isSome : looseWritten.spool.isSome = true := by decide +kernel

/-- The file is read. -/
def looseRead : Depot := looseWritten.fetched (looseWritten.spool.get looseWritten_isSome)

theorem fills_looseWritten : Fills (fileName eventStem 1) looseOpen looseWritten [.new "b"] := by
  have hwrite : Step looseOpen _ looseWritten := .write _ (Option.some_get rfl).symm (.new "b")
  have hok : ((looseOpen.spool.get rfl).write looseOpen.disk (.new "b")).1 = .ok () := by
    decide +kernel
  rw [hok] at hwrite
  have hcurrent : (looseWritten.spool.get looseWritten_isSome).current =
      some (fileName eventStem 1) := by decide +kernel
  exact Fills.refl.wrote (.new "b") hwrite
    ⟨_, (Option.some_get looseWritten_isSome).symm, hcurrent⟩

end Depot

theorem Place.serves_holding {es : Entries} (h : ∀ f ∈ es, ∃ c mode, f.2 = .file c mode) :
    (Place.holding es).Serves (Disk.holding es).host := by
  constructor
  · exact fun _ => rfl
  · have hroom : (50 : Int) ≤ 4000 := by decide
    exact hroom
  · intro name node hg
    exact h _ (Named.mem_of_get? hg)

/-- Blanks behind the last line feed do no harm: the batch has both events, and one line is set
aside. -/
theorem unfinished_line_kept_apart_iff_blanks :
    ∃ answer, Depot.Step Depot.looseWritten (.read answer) Depot.looseRead ∧
      answer = .ok (some ⟨[.new "a", .new "b"], .file (fileName eventStem 1)⟩) ∧
      damagedLines (Text.octets "\x7b\"id\":\"a\"\x7d\nx\n \t\x7b\"id\":\"b\"\x7d\n") =
        [Text.octets "x"] := by
  have hserves : (Place.holding Depot.looseEntries).Serves (Disk.holding Depot.looseEntries).host := by
    refine Place.serves_holding fun f hf => ?_
    rw [List.mem_singleton.mp hf]
    exact ⟨_, _, rfl⟩
  have hstands : Depot.looseOpen.Stands (.holding Depot.looseEntries)
      (Disk.holding Depot.looseEntries).host (Spool.files Depot.looseEntries)
      (Spool.lettersIn Depot.looseEntries) := by
    have hshows : (Disk.holding Depot.looseEntries).Shows (.holding Depot.looseEntries)
        Depot.looseEntries := Disk.holding_shows (List.pairwise_singleton _ _)
    have hlays := hshows.lays
    refine ⟨⟨_, hlays, .refl _, rfl, rfl⟩, ?_, ?_⟩
    · intro s hs name hname
      obtain rfl := Option.some.inj hs
      exact ⟨1, (Option.some.inj hname).symm⟩
    · intro q hq
      cases hq
  have hown : ∀ a ∈ [Event.new "b"], Event.read a.written = .ok a := by decide +kernel
  have hread : Depot.Step Depot.looseWritten _ Depot.looseRead :=
    .read _ (Option.some_get Depot.looseWritten_isSome).symm
  have hfiles : Depot.looseWritten.disk.files = [(fileName eventStem 1,
      Text.octets "\x7b\"id\":\"a\"\x7d\nx\n \t\x7b\"id\":\"b\"\x7d\n")] := by decide +kernel
  have hreach : ∃ c, (fileName eventStem 1, c) ∈ consulted Depot.looseWritten.disk.files := by
    rw [hfiles]
    exact ⟨Text.octets "\x7b\"id\":\"a\"\x7d\nx\n \t\x7b\"id\":\"b\"\x7d\n", by decide +kernel⟩
  have hfits : ∀ f ∈ Depot.looseWritten.disk.files, (Place.holding Depot.looseEntries).Fits f.1 ∧
      (Place.holding Depot.looseEntries).Fits (tempName f.1) := by
    intro f hf
    rw [hfiles] at hf
    rw [List.mem_singleton.mp hf]
    exact ⟨hserves.fits_event (by decide), hserves.fits_temp (by decide)⟩
  obtain ⟨before, after, rfl, rfl, -, -, -, -, hiff⟩ := unfinished_line_kept_apart_iff hserves hstands
    Depot.fills_looseWritten hown hread hreach hfits (Depot.inLimit_of_all (by decide +kernel))
  obtain ⟨hanswer, hdamaged⟩ := hiff.mpr (by decide +kernel)
  refine ⟨_, hread, hanswer.trans ?_, ?_⟩
  · decide +kernel
  · decide +kernel

/-! ## An event that is swallowed -/

/-- An empty directory on a host that refuses one call and takes one octet then. -/
def Disk.breaking : Disk :=
  { Disk.holding [] with
    host := ⟨fun k => if k = 3 then some ⟨.noSpace, 1⟩ else none, fun _ => 0, 4095⟩ }

namespace Depot

/-- A spool is opened. -/
def breakingOpen : Depot := (start .breaking).replaced ⟨some "q", none, none⟩ []

theorem breakingOpen_isSome : breakingOpen.spool.isSome = true := by decide +kernel

/-- The first write breaks off. -/
def brokenOff : Depot := breakingOpen.written (breakingOpen.spool.get breakingOpen_isSome) (.new "a")

theorem brokenOff_isSome : brokenOff.spool.isSome = true := by decide +kernel

/-- Another event is written. -/
def swallowed : Depot := brokenOff.written (brokenOff.spool.get brokenOff_isSome) (.new "b")

theorem swallowed_isSome : swallowed.spool.isSome = true := by decide +kernel

/-- And another one. -/
def spared : Depot := swallowed.written (swallowed.spool.get swallowed_isSome) (.new "c")

theorem spared_isSome : spared.spool.isSome = true := by decide +kernel

/-- Both writes are acknowledged, and go to the file that the first one has left unfinished. -/
theorem fills_spared : Fills (fileName eventStem 1) brokenOff spared [.new "b", .new "c"] := by
  have hfirst : Step brokenOff _ swallowed :=
    .write _ (Option.some_get brokenOff_isSome).symm (.new "b")
  have hfirstOk : ((brokenOff.spool.get brokenOff_isSome).write brokenOff.disk (.new "b")).1 =
      .ok () := by decide +kernel
  have hsecond : Step swallowed _ spared :=
    .write _ (Option.some_get swallowed_isSome).symm (.new "c")
  have hsecondOk : ((swallowed.spool.get swallowed_isSome).write swallowed.disk (.new "c")).1 =
      .ok () := by decide +kernel
  rw [hfirstOk] at hfirst
  rw [hsecondOk] at hsecond
  have hone : Fills (fileName eventStem 1) brokenOff swallowed [.new "b"] :=
    Fills.refl.wrote (.new "b") hfirst
      ⟨_, (Option.some_get swallowed_isSome).symm, by decide +kernel⟩
  exact hone.wrote (.new "c") hsecond
    ⟨_, (Option.some_get spared_isSome).symm, by decide +kernel⟩

/-- The file is read. -/
def sparedRead : Depot := spared.fetched (spared.spool.get spared_isSome)

end Depot

/-- A write breaks off after one octet. The next two events are acknowledged into the same file, and
nothing fails any more; but the batch has only the second of them, and the first is in the dead letter
of a line that was not there before. -/
theorem acknowledged_event_swallowed :
    Depot.Runs (fun _ _ => True) (.start .breaking) Depot.brokenOff ∧
    Depot.brokenOff.disk.files = [(fileName eventStem 1, Text.octets "\x7b")] ∧
    Depot.Fills (fileName eventStem 1) Depot.brokenOff Depot.spared [.new "b", .new "c"] ∧
    (∀ a ∈ [Event.new "b", .new "c"], Event.read a.written = .ok a) ∧
    Depot.Step Depot.spared
      (.read (.ok (some ⟨[.new "c"], .file (fileName eventStem 1)⟩))) Depot.sparedRead ∧
    (∃ l : DeadLetter, Depot.sparedRead.disk.letters 2 = l.written ∧
      l.rawData = "\x7b\x7b\"id\":\"b\"\x7d") ∧
    (∀ k, Depot.brokenOff.disk.calls ≤ k → Disk.breaking.host.refuse k = none) := by
  have hopened : Depot.Step (.start .breaking) _ Depot.breakingOpen :=
    .opened ⟨some "q", none, none⟩ [] (by decide +kernel)
  have hbroken : Depot.Step Depot.breakingOpen _ Depot.brokenOff :=
    .write _ (Option.some_get Depot.breakingOpen_isSome).symm (.new "a")
  have hread : Depot.Step Depot.spared
      (.read (.ok (some ⟨[.new "c"], .file (fileName eventStem 1)⟩))) Depot.sparedRead := by
    have hstep : Depot.Step Depot.spared _ Depot.sparedRead :=
      .read _ (Option.some_get Depot.spared_isSome).symm
    have hanswer : ((Depot.spared.spool.get Depot.spared_isSome).nextBatch Depot.spared.disk).1 =
        .ok (some ⟨[.new "c"], .file (fileName eventStem 1)⟩) := by decide +kernel
    rw [hanswer] at hstep
    exact hstep
  refine ⟨?_, by decide +kernel, Depot.fills_spared, by decide +kernel, hread, ?_, ?_⟩
  · exact .head ⟨_, hopened, trivial⟩ (.single ⟨_, hbroken, trivial⟩)
  · refine ⟨⟨Text.timestamp 0, fileName eventStem 1, "\x7b\x7b\"id\":\"b\"\x7d",
      "failed to unmarshal event: key must be a string"⟩, ?_, rfl⟩
    decide +kernel
  · intro k hk
    have hcalls : Depot.brokenOff.disk.calls = 4 := by decide +kernel
    rw [hcalls] at hk
    exact if_neg (by omega)

end AuditRelay
