import AuditRelay.Proofs.Json.Printed
import AuditRelay.Proofs.Store.Session
import AuditRelay.Proofs.Store.Willing

/-!
# AuditRelay.Proofs.Store.Fifo — a directory of event files is a queue

The events of a directory are those of the decodable lines of its event files, in the order of the
names (`Session.queue`). Whatever is done to the directory through spools, one after the other, is
what a queue does (`Queue.Allows`): a write puts its event behind all others, a batch is a front of
the queue and stays in it until it is committed, and nothing else changes the queue. That files are
rotated, damaged lines set aside, empty files removed and stamps given by a clock that may go
backwards does not show.

The invariant is `Session.Sound`. No file sorts behind the current one, whose contents are complete
lines; and the batch that is out is the first file, which is not the current one.
-/

namespace AuditRelay

/-! ## The queue -/

/-- A queue, and the events of the batch that is out. -/
structure Queue where
  events : List Event
  out : Option (List Event)
  deriving DecidableEq

/-- What a queue may answer to an operation, and what it is then. -/
inductive Queue.Allows (q : Queue) : Exchange → Queue → Prop where
  | written (e : Event) : Allows q (.write e (.ok ())) ⟨q.events ++ [e], q.out⟩
  | full (e : Event) (current limit : Nat) :
      Allows q (.write e (.error (.storeFull current limit))) q
  | empty (h : q.events = []) (ho : q.out = none) : Allows q (.read (.ok none)) q
  | batch (b : Batch) (rest : List Event) (h : q.events = b.events ++ rest) (hne : b.events ≠ [])
      (ho : q.out = none) : Allows q (.read (.ok (some b))) ⟨q.events, some b.events⟩
  | committed (es rest : List Event) (ho : q.out = some es) (h : q.events = es ++ rest) :
      Allows q (.commit (.ok ())) ⟨rest, none⟩
  | dropped : Allows q .drop ⟨q.events, none⟩
  | refreshed : Allows q (.refresh (.ok ())) q
  | closed : Allows q .close q
  | opened (answer : Except Fault Unit) : Allows q (.opened answer) q

/-- The events of the directory. -/
def Disk.held (d : Disk) : List Event :=
  match d.entries with
  | .ok es => Spool.held (Spool.files es)
  | .error _ => []

/-- The queue that a directory is. -/
def Session.queue (x : Session) : Queue :=
  ⟨x.disk.held, x.batch.map (·.batch.events)⟩

theorem Disk.Stores.held {p : Place} {d : Disk} {fs : Named Octets} (h : d.Stores p fs) :
    d.held = Spool.held fs := by
  obtain ⟨es, hes, -, rfl, -⟩ := h.houses
  rw [Disk.held, hes.entries]

/-! ## What is asked of a run -/

/-- A written event is read back from its line. -/
def Exchange.Decodes : Exchange → Prop
  | .write e _ => Event.read e.written = .ok e
  | _ => True

/-- The stamps have at most twenty digits. -/
def Session.InLimit (x : Session) : Prop :=
  ∀ s ∈ x.spool, s.highestStamp < Spool.stampLimit

instance (x : Session) : Decidable x.InLimit :=
  inferInstanceAs (Decidable (∀ s ∈ x.spool, s.highestStamp < Spool.stampLimit))

/-- What is asked of an operation and of the session after it. -/
def Session.Fair (l : Exchange) (x : Session) : Prop := l.Decodes ∧ x.InLimit

/-- A directory in which a queue can be kept: besides, the names that a spool gives are not too long
there. -/
structure Place.IsSound (p : Place) : Prop extends p.IsStamped where
  room : 39 ≤ p.room

theorem Place.IsSound.fits {p : Place} (hp : p.IsSound) {n : Nat} (h : n < Spool.stampLimit) :
    p.Fits (Spool.fileName Spool.eventStem n) := by
  have hlen := Spool.utf8ByteSize_fileName h
  constructor
  · rw [hlen]
    exact hp.room
  · rw [hlen]
    decide

/-! ## The invariant -/

open Spool (fileName eventStem stampLimit IsWhole eventsIn)

/-- The current file may be appended to: no file sorts behind it, and its lines are complete. -/
structure Spool.Appends (s : Spool) (fs : Named Octets) (name : String) : Prop where
  named : ∃ n, n ≤ s.highestStamp ∧ name = fileName eventStem n
  last : ∀ f ∈ fs, f.1 ≤ name
  whole : IsWhole ((Named.get? fs name).getD [])

/-- What the open spool knows of the directory. -/
structure Spool.Knows (s : Spool) (fs : Named Octets) : Prop where
  limit : s.highestStamp < stampLimit
  stamps : ∀ f ∈ fs, ∃ n, n ≤ s.highestStamp ∧ f.1 = fileName eventStem n
  current : ∀ name, s.current = some name → s.Appends fs name

/-- What a session keeps to. -/
structure Session.Sound (p : Place) (x : Session) (fs : Named Octets) : Prop where
  stores : x.disk.Stores p fs
  names : ∀ f ∈ fs, ∃ n, n < stampLimit ∧ f.1 = fileName eventStem n
  knows : ∀ s, x.spool = some s → s.Knows fs
  /-- The batch that is out is the first file, and nothing is appended to it. -/
  batch : ∀ q, x.batch = some q → ∃ name c rest, q.batch.token = .file name ∧
    fs = (name, c) :: rest ∧ q.batch.events = eventsIn c ∧
    ∀ s, x.spool = some s → s.current ≠ some name

/-! ## Writing -/

namespace Spool

variable {host : Host} {s s' : Spool} {fs : Named Octets} {name : String}

theorem isBlankLine_written (e : Event) : isBlankLine e.written = false := rfl

/-- An event that is put behind the last file's complete lines is the last event. -/
theorem held_insert_last (ho : Named.IsOrdered fs) (hlast : ∀ f ∈ fs, f.1 ≤ name)
    (hw : IsWhole ((Named.get? fs name).getD [])) {e : Event}
    (he : Event.read e.written = .ok e) :
    held (Named.insert name ((Named.get? fs name).getD [] ++ (e.written ++ [lineFeed])) fs) =
      held fs ++ [e] := by
  have hline := eventsIn_append_line hw e.feed_not_mem_written (isBlankLine_written e) he
  have hbefore : held fs =
      held (Named.erase name fs) ++ eventsIn ((Named.get? fs name).getD []) := by
    conv_lhs => rw [ho.eq_erase_append hlast]
    rw [held_append]
    cases Named.get? fs name <;> simp [held, eventsIn_nil]
  rw [ho.insert_last _ hlast, held_append, hbefore, held_cons, hline, List.append_assoc]
  simp [held]

/-- The chosen file may be appended to. -/
theorem Knows.aimed (hk : s.Knows fs) {n : Nat} (ha : Aims host s fs n s'.highestStamp)
    (hc : s'.current = some (fileName eventStem n)) (hl : s'.highestStamp < stampLimit) :
    s'.Knows fs := by
  have hle := ha.highest_ge
  refine ⟨hl, fun f hf => ?_, fun name hname => ?_⟩
  · obtain ⟨m, hm, hf⟩ := hk.stamps f hf
    exact ⟨m, hm.trans hle, hf⟩
  · rw [hc, Option.some.injEq] at hname
    subst hname
    rcases ha.current_or_new with ⟨hcur, -⟩ | ⟨hn, hs⟩
    · -- the current file
      obtain ⟨⟨m, hm, hnamed⟩, hlast, hwhole⟩ := hk.current _ hcur
      exact ⟨⟨m, hm.trans hle, hnamed⟩, hlast, hwhole⟩
    · -- a new file sorts behind all others
      have hlt := hn.behind
      have hbehind : ∀ f ∈ fs, f.1 < fileName eventStem n := by
        intro f hf
        obtain ⟨m, hm, hf⟩ := hk.stamps f hf
        rw [hf]
        exact fileName_lt_fileName eventStem (by omega) (by omega)
      have hnone : Named.get? fs (fileName eventStem n) = none := by
        rw [Option.eq_none_iff_forall_ne_some]
        intro c hc
        exact absurd (hbehind _ (Named.mem_of_get? hc)) (lt_irrefl _)
      refine ⟨⟨n, hs.ge, rfl⟩, fun f hf => (hbehind f hf).le, ?_⟩
      rw [hnone]
      exact .inl rfl

/-- The chosen file is not the first one, unless that is the current one. -/
theorem Knows.ne_of_aimed (hk : s.Knows fs) {n highest : Nat} (ha : Aims host s fs n highest)
    (hl : highest < stampLimit) {f : String × Octets} (hf : f ∈ fs)
    (hc : s.current ≠ some f.1) : f.1 ≠ fileName eventStem n := by
  intro heq
  rcases ha.current_or_new with ⟨hcur, -⟩ | ⟨hn, rfl⟩
  · exact hc (by rw [heq, hcur])
  · obtain ⟨m, hm, hname⟩ := hk.stamps f hf
    have hbehind := hn.behind
    have hsame : m = highest :=
      fileName_injective (by omega) (by omega) (hname.symm.trans heq)
    omega

/-- The spool knows as much after a line has been put behind its current file. -/
theorem Knows.append (hk : s.Knows fs) (hc : s.current = some name) (line : Octets) :
    s.Knows (Named.insert name ((Named.get? fs name).getD [] ++ (line ++ [lineFeed])) fs) := by
  obtain ⟨⟨n, hn, hnamed⟩, hlast, hwhole⟩ := hk.current name hc
  refine ⟨hk.limit, fun f hf => ?_, fun name' hname' => ?_⟩
  · rcases Named.mem_insert hf with rfl | hf
    · exact ⟨n, hn, hnamed⟩
    · exact hk.stamps f hf
  · rw [hc, Option.some.injEq] at hname'
    subst hname'
    refine ⟨⟨n, hn, hnamed⟩, fun f hf => ?_, ?_⟩
    · rcases Named.mem_insert hf with rfl | hf
      · exact le_refl _
      · exact hlast f hf
    · rw [Named.get?_insert_self, Option.getD_some]
      exact IsWhole.append_line _ _

/-- The spool knows as much of fewer files, among them the first one with other contents, as long
as that is not the current one. -/
theorem Knows.fewer (hk : s.Knows fs) (ho : Named.IsOrdered fs) {gs : Named Octets}
    (hgs : ∀ g ∈ gs, s'.current ≠ some g.1 → ∃ c, (g.1, c) ∈ fs)
    (hsame : ∀ g ∈ gs, s'.current = some g.1 → g ∈ fs)
    (hcur : s'.current = s.current ∨ s'.current = none)
    (hle : s.highestStamp ≤ s'.highestStamp) (hl : s'.highestStamp < stampLimit) :
    s'.Knows gs := by
  have hmem : ∀ g ∈ gs, ∃ c, (g.1, c) ∈ fs := by
    intro g hg
    by_cases hc : s'.current = some g.1
    · exact ⟨g.2, hsame g hg hc⟩
    · exact hgs g hg hc
  refine ⟨hl, fun g hg => ?_, fun name hname => ?_⟩
  · obtain ⟨c, hc⟩ := hmem g hg
    obtain ⟨n, hn, hnamed⟩ := hk.stamps _ hc
    exact ⟨n, hn.trans hle, hnamed⟩
  · have hc : s.current = some name := by
      rcases hcur with hcur | hcur
      · rw [← hcur, hname]
      · rw [hcur] at hname
        contradiction
    obtain ⟨⟨n, hn, hnamed⟩, hlast, hwhole⟩ := hk.current name hc
    refine ⟨⟨n, hn.trans hle, hnamed⟩, fun g hg => ?_, ?_⟩
    · obtain ⟨c, hc⟩ := hmem g hg
      exact hlast (g.1, c) hc
    · cases hg : Named.get? gs name with
      | none => exact .inl rfl
      | some c =>
        have hin := hsame _ (Named.mem_of_get? hg) hname
        rw [ho.get?_of_mem hin] at hwhole
        exact hwhole

end Spool

/-! ## Operations -/

namespace Session

variable {p : Place} {host : Host} {x : Session} {fs : Named Octets}

theorem Sound.queue_eq (h : x.Sound p fs) :
    x.queue = ⟨Spool.held fs, x.batch.map (·.batch.events)⟩ := by
  rw [queue, h.stores.held]

/-- The chosen file is writable and its name is not too long. -/
theorem fits_of_knows (hp : p.IsSound) {s : Spool} (hk : s.Knows fs) {n : Nat}
    (hc : s.current = some (fileName eventStem n)) : p.Fits (fileName eventStem n) := by
  obtain ⟨⟨m, hm, hname⟩, -, -⟩ := hk.current _ hc
  rw [hname]
  exact hp.fits (lt_of_le_of_lt hm hk.limit)

/-- A file has been chosen, but nothing is put into it. -/
theorem Sound.aimed (h : x.Sound p fs) {s s' : Spool} (hs : x.spool = some s) {n : Nat}
    (ha : Spool.Aims host s fs n s'.highestStamp) (hc : s'.current = some (fileName eventStem n))
    (hl : s'.highestStamp < stampLimit) {d : Disk} (hd : d.Stores p fs) :
    Sound p ⟨some s', d, x.batch⟩ fs := by
  have hk := h.knows s hs
  refine ⟨hd, h.names, fun t ht => ?_, fun q hq => ?_⟩
  · cases ht
    exact hk.aimed ha hc hl
  · obtain ⟨name, c, rest, htoken, hfs, hevents, hcur⟩ := h.batch q hq
    refine ⟨name, c, rest, htoken, hfs, hevents, fun t ht => ?_⟩
    cases ht
    rw [hc]
    have hne := hk.ne_of_aimed ha hl (hfs ▸ List.mem_cons_self) (hcur s hs)
    exact fun heq => hne (Option.some.inj heq).symm

/-- A line has been put behind the chosen file. The batch that is out is another one, which stays the
first. -/
theorem Sound.appended (h : x.Sound p fs) {s s' : Spool} (hs : x.spool = some s) {n : Nat}
    (ha : Spool.Aims host s fs n s'.highestStamp) (hc : s'.current = some (fileName eventStem n))
    (hl : s'.highestStamp < stampLimit) {d : Disk} {line : Octets}
    (hd : d.Stores p (Named.insert (fileName eventStem n)
      ((Named.get? fs (fileName eventStem n)).getD [] ++ (line ++ [Spool.lineFeed])) fs)) :
    Sound p ⟨some s', d, x.batch⟩ (Named.insert (fileName eventStem n)
      ((Named.get? fs (fileName eventStem n)).getD [] ++ (line ++ [Spool.lineFeed])) fs) := by
  have hk := h.knows s hs
  have hk' := hk.aimed ha hc hl
  have happ := hk'.current _ hc
  refine ⟨hd, fun f hf => ?_, fun t ht => ?_, fun q hq => ?_⟩
  · rcases Named.mem_insert hf with rfl | hf
    · obtain ⟨m, hm, hname⟩ := happ.named
      exact ⟨m, lt_of_le_of_lt hm hl, hname⟩
    · exact h.names f hf
  · cases ht
    exact hk'.append hc line
  · obtain ⟨name, c, rest, htoken, hfs, hevents, hcur⟩ := h.batch q hq
    have hin : (name, c) ∈ fs := hfs ▸ List.mem_cons_self
    have hne : name ≠ fileName eventStem n := hk.ne_of_aimed ha hl hin (hcur s hs)
    refine ⟨name, c, Named.insert (fileName eventStem n)
      ((Named.get? fs (fileName eventStem n)).getD [] ++ (line ++ [Spool.lineFeed])) rest,
      htoken, ?_, hevents, fun t ht => ?_⟩
    · have hle : ¬ fileName eventStem n < name := not_lt.mpr (happ.last _ hin)
      conv_lhs => rw [hfs, Named.insert, if_neg (Ne.symm hne), if_neg hle, ← hfs]
    · cases ht
      rw [hc]
      exact fun heq => hne (Option.some.inj heq).symm

theorem Sound.write (h : x.Sound p fs) (hp : p.IsSound) {s : Spool} (hs : x.spool = some s)
    {e : Event} (he : Event.read e.written = .ok e) (hl : (x.written s e).InLimit) :
    ∃ gs, (x.written s e).Sound p gs ∧
      (x.queue).Allows (.write e (s.write x.disk e).1) (x.written s e).queue := by
  have hk := h.knows s hs
  have hlimit : (s.write x.disk e).2.1.highestStamp < stampLimit := hl _ rfl
  have hcurrent : ∀ name, s.current = some name → ∃ n, name = fileName eventStem n := by
    intro name hc
    obtain ⟨⟨n, -, hname⟩, -, -⟩ := hk.current name hc
    exact ⟨n, hname⟩
  obtain ⟨r, s', d', gs, hrun, h', -, hw⟩ := h.stores.write hp.isUnlinked hcurrent e
  have hy : x.written s e = ⟨some s', d', x.batch⟩ := by rw [written, hrun]
  rw [hrun] at hlimit
  rw [hy, hrun, h.queue_eq]
  cases hw with
  | exhausted hmax =>
    -- the stamps stay far below the last one
    exact absurd hk.limit (Nat.not_lt.mpr (Spool.stampLimit_le_maxStamp.trans hmax))
  | untold name f hc hno =>
    -- nothing but files stands under the names of event files, and these names are short enough
    obtain ⟨n, rfl⟩ := hcurrent name hc
    have htold := h.stores.houses.tellsSize_of_willing (Spool.isEventFile_fileName n)
      (.inl hp.isRegular) h.stores.willing (fits_of_knows hp hk hc)
    rw [hno] at htold
    cases htold
  | failed n highest op f _ ha hroom hop hfs hno =>
    exact absurd ⟨hp.isRegular, fits_of_knows hp (hk.aimed ha rfl hlimit) rfl⟩
      (hno h.stores.willing).2
  | full n highest limit ha hsome hle =>
    have hsound := h.aimed hs ha rfl hlimit h'
    refine ⟨fs, hsound, ?_⟩
    rw [hsound.queue_eq]
    exact .full e s.total limit
  | done n highest ha htarget hroom hfit =>
    have hknows : (s.aimed n highest).Knows fs := hk.aimed ha rfl hlimit
    have happ := hknows.current _ rfl
    have hsound := h.appended hs ha rfl hlimit h'
    refine ⟨_, hsound, ?_⟩
    rw [hsound.queue_eq, Spool.held_insert_last h.stores.ordered happ.last happ.whole he]
    exact .written e

/-- All files have been removed. -/
theorem Sound.emptied (h : x.Sound p fs) {s s' : Spool} (hs : x.spool = some s)
    (hs' : Spool.Follows s s') (hl : s'.highestStamp < stampLimit) {d : Disk}
    (hd : d.Stores p []) : Sound p ⟨some s', d, none⟩ [] := by
  refine ⟨hd, fun f hf => ?_, fun t ht => ?_, fun q hq => ?_⟩
  · cases hf
  · cases ht
    exact (h.knows s hs).fewer h.stores.ordered (fun g hg => by cases hg) (fun g hg => by cases hg)
      hs'.current hs'.stamp hl
  · cases hq

/-- The file that has been read is the first one now, and is no longer written to. -/
theorem Sound.fetches (h : x.Sound p fs) {s s' : Spool} (hs : x.spool = some s) {name : String}
    {c c' : Octets} {passed rest : Named Octets} (hfs : fs = passed ++ (name, c) :: rest)
    (hc' : Spool.IsLeftOf c c') (hs' : Spool.Follows s s') (hcur : s'.current ≠ some name)
    (hl : s'.highestStamp < stampLimit) {d : Disk}
    (hd : d.Stores p ((name, c') :: rest)) :
    Sound p ⟨some s', d, some ⟨⟨eventsIn c, .file name⟩, none⟩⟩ ((name, c') :: rest) := by
  have hrest : ∀ g ∈ rest, g ∈ fs := by
    intro g hg
    rw [hfs]
    exact List.mem_append_right _ (List.mem_cons_of_mem _ hg)
  have hfirst : (name, c) ∈ fs := by
    rw [hfs]
    exact List.mem_append_right _ List.mem_cons_self
  refine ⟨hd, fun f hf => ?_, fun t ht => ?_, fun q hq => ?_⟩
  · rcases List.mem_cons.mp hf with rfl | hf
    · exact h.names (name, c) hfirst
    · exact h.names f (hrest f hf)
  · cases ht
    refine (h.knows s hs).fewer h.stores.ordered (fun g hg _ => ?_) (fun g hg hg' => ?_)
      hs'.current hs'.stamp hl
    · rcases List.mem_cons.mp hg with rfl | hg
      · exact ⟨c, hfirst⟩
      · exact ⟨g.2, hrest g hg⟩
    · rcases List.mem_cons.mp hg with rfl | hg
      · exact absurd hg' hcur
      · exact hrest g hg
  · cases hq
    refine ⟨name, c', rest, rfl, rfl, hc'.eventsIn_eq.symm, fun t ht => ?_⟩
    cases ht
    exact hcur

theorem Sound.read (h : x.Sound p fs) (hp : p.IsSound) {s : Spool} (hs : x.spool = some s)
    (hb : x.batch = none) (hl : (x.fetched s).InLimit) :
    ∃ gs, (x.fetched s).Sound p gs ∧
      (x.queue).Allows (.read (s.nextBatch x.disk).1) (x.fetched s).queue := by
  have hlimit : (s.nextBatch x.disk).2.1.highestStamp < stampLimit := hl _ rfl
  obtain ⟨r, s', d', gs, hrun, h', -, hr⟩ := h.stores.nextBatch hp.isUnlinked s
  have hy : x.fetched s = ⟨some s', d', brought r⟩ := by rw [fetched, hrun]
  rw [hrun] at hlimit
  rw [hy, hrun, h.queue_eq, hb, Option.map_none]
  cases hr with
  | nothing _ hheld hs' =>
    have hsound := h.emptied hs hs' hlimit h'
    refine ⟨[], hsound, ?_⟩
    show Queue.Allows _ _ (Session.queue ⟨some s', d', none⟩)
    rw [hsound.queue_eq, hheld]
    exact .empty rfl rfl
  | batch name c c' passed rest _ hfs hpassed hc hc' hs' hcur =>
    have hsound := h.fetches hs hfs hc' hs' hcur hlimit h'
    refine ⟨_, hsound, ?_⟩
    show Queue.Allows _ _ (Session.queue ⟨some s', d', some ⟨⟨eventsIn c, .file name⟩, none⟩⟩)
    have hheld : Spool.held fs = Spool.held ((name, c') :: rest) := by
      rw [hfs, Spool.held_append, hpassed, List.nil_append, Spool.held_cons, Spool.held_cons,
        hc'.eventsIn_eq]
    rw [hsound.queue_eq, ← hheld]
    refine .batch ⟨eventsIn c, .file name⟩ (Spool.held rest) ?_ hc rfl
    rw [hheld, Spool.held_cons, hc'.eventsIn_eq]
  | exhausted passed rest _ hfs hpassed hs' hmax =>
    exact absurd hlimit (Nat.not_lt.mpr (Spool.stampLimit_le_maxStamp.trans hmax))

/-- Committing takes the first file away, whichever spool does it. -/
theorem Sound.commit_first (h : x.Sound p fs) {q : Outstanding} (hq : x.batch = some q)
    {name : String} (ht : q.batch.token = .file name) (t : Spool) :
    ∃ c rest d', fs = (name, c) :: rest ∧ q.batch.events = eventsIn c ∧
      t.commit x.disk name = (.ok (), { t with total := t.total - c.length }, d') ∧
      d'.Stores p rest := by
  obtain ⟨name', c, rest, htoken, hfs, hevents, -⟩ := h.batch q hq
  rw [ht, Token.file.injEq] at htoken
  subst htoken
  have hg : Named.get? fs name = some c := by
    rw [hfs, Named.get?_first]
  obtain ⟨d', hremove, h', -⟩ := h.stores.removeFile t hg
  have hrest : Named.erase name fs = rest := by
    have ho := h.stores.ordered
    rw [hfs] at ho
    rw [hfs, ho.erase_first]
  rw [hrest] at h'
  exact ⟨c, rest, d', hfs, hevents, hremove, h'⟩

/-- A session without its first file, and with no batch out. -/
theorem Sound.rest {name : String} {c : Octets} {rest : Named Octets}
    (h : x.Sound p ((name, c) :: rest)) {d' : Disk} (h' : d'.Stores p rest)
    {s' : Option Spool}
    (hs : ∀ t', s' = some t' → ∃ t, x.spool = some t ∧ t'.current = t.current ∧
      t'.highestStamp = t.highestStamp) : Sound p ⟨s', d', none⟩ rest := by
  refine ⟨h', fun f hf => h.names f (List.mem_cons_of_mem _ hf), fun t' ht' => ?_, fun q hq => ?_⟩
  · obtain ⟨t, ht, hcur, hstamp⟩ := hs t' ht'
    have hk := h.knows t ht
    exact hk.fewer h.stores.ordered (fun g hg _ => ⟨g.2, List.mem_cons_of_mem _ hg⟩)
      (fun g hg _ => List.mem_cons_of_mem _ hg) (.inl hcur) hstamp.ge (hstamp ▸ hk.limit)
  · cases hq

theorem Sound.commit (h : x.Sound p fs) {s : Spool} {b : Batch} {name : String}
    (hs : x.spool = some s) (hb : x.batch = some ⟨b, none⟩) (ht : b.token = .file name) :
    ∃ gs, (x.committed s name).Sound p gs ∧
      (x.queue).Allows (.commit (s.commit x.disk name).1) (x.committed s name).queue := by
  obtain ⟨c, rest, d', rfl, hevents, hrun, h'⟩ := h.commit_first hb ht s
  have hsound : Sound p ⟨some { s with total := s.total - c.length }, d', none⟩ rest := by
    refine h.rest h' fun t' ht' => ?_
    cases ht'
    exact ⟨s, hs, rfl, rfl⟩
  have hy : x.committed s name = ⟨some { s with total := s.total - c.length }, d', none⟩ := by
    rw [committed, hrun]
  rw [hy, hrun, h.queue_eq, hb]
  refine ⟨rest, hsound, ?_⟩
  rw [hsound.queue_eq]
  exact .committed b.events (Spool.held rest) rfl (by rw [Spool.held_cons, hevents])

theorem Sound.commitFormer (h : x.Sound p fs) {former : Spool} {b : Batch} {name : String}
    (hb : x.batch = some ⟨b, some former⟩) (ht : b.token = .file name) :
    ∃ gs, (x.committedFormer former name).Sound p gs ∧
      (x.queue).Allows (.commit (former.commit x.disk name).1)
        (x.committedFormer former name).queue := by
  obtain ⟨c, rest, d', rfl, hevents, hrun, h'⟩ := h.commit_first hb ht former
  have hsound : Sound p ⟨x.spool, d', none⟩ rest :=
    h.rest h' fun t ht => ⟨t, ht, rfl, rfl⟩
  have hy : x.committedFormer former name = ⟨x.spool, d', none⟩ := by
    rw [committedFormer, hrun]
  rw [hy, hrun, h.queue_eq, hb]
  refine ⟨rest, hsound, ?_⟩
  rw [hsound.queue_eq]
  exact .committed b.events (Spool.held rest) rfl (by rw [Spool.held_cons, hevents])

theorem Sound.refresh (h : x.Sound p fs) {s : Spool} (hs : x.spool = some s) :
    ∃ gs, (x.refreshed s).Sound p gs ∧
      (x.queue).Allows (.refresh (s.refreshGauges x.disk).1) (x.refreshed s).queue := by
  obtain ⟨d', hrun, h', -⟩ := h.stores.refreshGauges s
  have hk := h.knows s hs
  have hsound : Sound p (x.refreshed s) fs := by
    rw [refreshed, hrun]
    refine ⟨h', h.names, fun t ht => ?_, fun q hq => ?_⟩
    · cases ht
      exact ⟨hk.limit, hk.stamps, fun name hc =>
        ⟨(hk.current name hc).named, (hk.current name hc).last, (hk.current name hc).whole⟩⟩
    · obtain ⟨name, c, rest, htoken, hfs, hevents, hcur⟩ := h.batch q hq
      refine ⟨name, c, rest, htoken, hfs, hevents, fun t ht => ?_⟩
      cases ht
      exact hcur s hs
  refine ⟨fs, hsound, ?_⟩
  rw [hsound.queue_eq, h.queue_eq, hrun]
  exact .refreshed

theorem Sound.close (h : x.Sound p fs) {s : Spool} (hs : x.spool = some s) :
    ∃ gs, Sound p { x with spool := some s.close } gs ∧
      (x.queue).Allows .close (Session.queue { x with spool := some s.close }) := by
  have hk := h.knows s hs
  have hsound : Sound p { x with spool := some s.close } fs := by
    refine ⟨h.stores, h.names, fun t ht => ?_, fun q hq => ?_⟩
    · cases ht
      exact ⟨hk.limit, hk.stamps, fun name hc => by cases hc⟩
    · obtain ⟨name, c, rest, htoken, hfs, hevents, hcur⟩ := h.batch q hq
      refine ⟨name, c, rest, htoken, hfs, hevents, fun t ht => ?_⟩
      cases ht
      exact (Option.some_ne_none name).symm
  refine ⟨fs, hsound, ?_⟩
  rw [hsound.queue_eq, h.queue_eq]
  exact .closed

theorem Sound.opened (h : x.Sound p fs) (params : SpoolParameters) (registry : Registry)
    (hr : Disk.reach x.disk.host.pathLimit x.disk.root (params.directory.getD "") =
      x.disk.directory) (hl : (x.replaced params registry).InLimit) :
    ∃ gs, (x.replaced params registry).Sound p gs ∧
      (x.queue).Allows (.opened ((Spool.create params registry x.disk).1.map fun _ => ()))
        (x.replaced params registry).queue := by
  obtain ⟨h', -, hopened⟩ := h.stores.create params registry hr
  have hsound : (x.replaced params registry).Sound p fs := by
    rw [replaced] at hl ⊢
    rcases hrun : Spool.create params registry x.disk with ⟨r, registry', d'⟩
    rw [hrun] at h' hopened hl
    cases r with
    | error f =>
      exact ⟨h', h.names, h.knows, h.batch⟩
    | ok s =>
      -- it has taken up the stamps of all files, and has no current one
      have hnew := hopened s rfl
      have hlimit : s.highestStamp < stampLimit := hl s rfl
      refine ⟨h', h.names, fun t ht => ?_, fun q hq => ?_⟩
      · cases ht
        refine ⟨hlimit, fun f hf => ?_, fun name hc => ?_⟩
        · obtain ⟨n, hn, hname⟩ := h.names f hf
          refine ⟨n, hnew.stamps f hf n ?_, hname⟩
          rw [hname]
          exact Spool.stamp?_fileName (hn.le.trans Spool.stampLimit_le_maxStamp)
        · rw [hnew.current] at hc
          contradiction
      · obtain ⟨q', hq', rfl⟩ := Option.map_eq_some_iff.mp hq
        obtain ⟨name, c, rest, htoken, hfs, hevents, -⟩ := h.batch q' hq'
        refine ⟨name, c, rest, htoken, hfs, hevents, fun t ht => ?_⟩
        cases ht
        rw [hnew.current]
        exact (Option.some_ne_none name).symm
  refine ⟨fs, hsound, ?_⟩
  have hout : (x.replaced params registry).batch.map (·.batch.events) =
      x.batch.map (·.batch.events) := by
    rw [replaced]
    split
    · simp [Outstanding.keep, Function.comp_def]
    · rfl
  rw [hsound.queue_eq, h.queue_eq, hout]
  exact .opened _

/-- An operation on a sound session is one of a queue, and leaves a sound session. -/
theorem Sound.step (h : x.Sound p fs) (hp : p.IsSound) {l : Exchange} {y : Session}
    (hs : Step x l y) (hf : Fair l y) :
    ∃ gs, y.Sound p gs ∧ (x.queue).Allows l y.queue := by
  cases hs with
  | write s hs e => exact h.write hp hs hf.1 hf.2
  | read s hs hb => exact h.read hp hs hb hf.2
  | commit s b name hs hb ht => exact h.commit hs hb ht
  | commitFormer former b name hb ht => exact h.commitFormer hb ht
  | drop q hb =>
    have hsound : Sound p { x with batch := none } fs :=
      ⟨h.stores, h.names, h.knows, fun q hq => by cases hq⟩
    refine ⟨fs, hsound, ?_⟩
    rw [hsound.queue_eq, h.queue_eq]
    exact .dropped
  | refresh s hs => exact h.refresh hs
  | close s hs => exact h.close hs
  | opened params registry hr => exact h.opened params registry hr hf.2

theorem Sound.runs (h : x.Sound p fs) (hp : p.IsSound) {y : Session} (hr : Runs Fair x y) :
    ∃ gs, y.Sound p gs := by
  induction hr with
  | refl => exact ⟨fs, h⟩
  | tail _ hs ih =>
    obtain ⟨gs, hy⟩ := ih
    obtain ⟨l, hstep, hf⟩ := hs
    obtain ⟨gs', hz, -⟩ := hy.step hp hstep hf
    exact ⟨gs', hz⟩

end Session

/-! ## Refinement -/

namespace Session

end Session

namespace Session

end Session

end AuditRelay
