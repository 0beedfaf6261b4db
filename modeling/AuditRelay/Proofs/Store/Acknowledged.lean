import AuditRelay.Proofs.Event.ReadBack
import AuditRelay.Proofs.Json.Printed
import AuditRelay.Proofs.Store.Session
import AuditRelay.Proofs.Store.Willing

/-!
# AuditRelay.Proofs.Store.Acknowledged — what becomes of an event whose write was acknowledged

A write that answers ok has put the line of its event into an event file. The first reading that
does not pass over that file gives the event at its place among those of the file, and no dead
letter is of its line, exactly if the event is legible (`written_event_read_iff`). Nothing checks
that before the write: the line of an event that is too deep is acknowledged and then set aside
(`deep_event_set_aside`).

`Session.Moves` is what one operation makes of the event files, whatever stamps there are, and
`Session.Tidy` is what every operation keeps: event files are complete lines, dead letters are of lines
that are refused, and the file of the batch that is out is there.
-/

namespace AuditRelay

open Spool (fileName eventStem deadLetterStem lineFeed IsWhole eventsIn held maxStamp IsLeftOf)

/-! ## What is seen in a directory -/

/-- The contents of an event file, if it is there. -/
def Disk.eventFile? (d : Disk) (name : String) : Option Octets :=
  match d.entries with
  | .ok es => Named.get? (Spool.files es) name
  | .error _ => none

/-- No dead letter of the directory shows that line. -/
def Disk.HasNoLetterOf (d : Disk) (line : Octets) : Prop :=
  ∀ stamp, ∃ ls : List Spool.DeadLetter,
    d.letters stamp = ls.flatMap Spool.DeadLetter.written ∧
    ∀ l ∈ ls, l.rawData ≠ Text.lossy line

theorem Disk.Stores.eventFile? {p : Place} {d : Disk} {fs : Named Octets} (h : d.Stores p fs)
    (name : String) : d.eventFile? name = Named.get? fs name := by
  obtain ⟨es, hes, -, rfl, -⟩ := h.houses
  rw [Disk.eventFile?, hes.entries]

/-! ## Dead letters -/

namespace Spool

/-- The letter is of a line of text that is refused for the fault it tells. -/
def DeadLetter.IsFounded (l : DeadLetter) : Prop :=
  ∃ (x : Damaged) (timestamp sourceFile : String), l = x.letter timestamp sourceFile ∧
    Text.IsPlain x.line ∧ Event.read x.line = .error x.fault

/-- All dead letters are of such lines. -/
def AreFounded (ls : Nat → Octets) : Prop :=
  ∀ n, ∃ letters : List DeadLetter, ls n = letters.flatMap DeadLetter.written ∧
    ∀ l ∈ letters, l.IsFounded

variable {p : Place} {host : Host} {s s' : Spool} {fs fs' : Named Octets} {ls ls' : Nat → Octets}
  {name : String} {c : Octets}

theorem areFounded_nil : AreFounded fun _ => [] :=
  fun _ => ⟨[], rfl, fun _ hl => absurd hl List.not_mem_nil⟩

/-- More dead letters are put behind those with a stamp. -/
theorem AreFounded.append (h : AreFounded ls) (n : Nat) {letters : List DeadLetter}
    (hletters : ∀ l ∈ letters, l.IsFounded) :
    AreFounded (Function.update ls n (ls n ++ letters.flatMap DeadLetter.written)) := by
  intro m
  by_cases hm : m = n
  · subst hm
    obtain ⟨old, htext, hold⟩ := h m
    refine ⟨old ++ letters, ?_, fun l hl => ?_⟩
    · rw [Function.update_self, htext, List.flatMap_append]
    · rcases List.mem_append.mp hl with hl | hl
      · exact hold l hl
      · exact hletters l hl
  · rw [Function.update_of_ne hm]
    exact h m

theorem AreLettersOf.isFounded {xs : List Damaged} {letters : List DeadLetter}
    (h : AreLettersOf name xs letters)
    (hxs : ∀ x ∈ xs, Text.IsPlain x.line ∧ Event.read x.line = .error x.fault) :
    ∀ l ∈ letters, l.IsFounded := by
  -- letter by letter, each with its damaged line
  induction h with
  | nil => exact fun l hl => absurd hl List.not_mem_nil
  | cons hletter _ ih =>
    obtain ⟨timestamp, rfl⟩ := hletter
    intro l hl
    rcases List.mem_cons.mp hl with rfl | hl
    · exact ⟨_, timestamp, name, rfl, hxs _ List.mem_cons_self⟩
    · exact ih (fun x hx => hxs x (List.mem_cons_of_mem _ hx)) l hl

/-- What reading a file of text sets aside, if no call fails. -/
theorem FileRead.areFounded {r : Except Fault (List Event)}
    (h : FileRead p host s fs ls name c r s' fs' ls') (hw : host.IsWilling)
    (hc : ∀ line ∈ lines c, Text.IsPlain line) (hls : AreFounded ls) : AreFounded ls' := by
  have hrefused : ∀ x ∈ damagedIn c, Text.IsPlain x.line ∧ Event.read x.line = .error x.fault := by
    intro x hx
    obtain ⟨hline, hr⟩ := of_mem_damaged hx
    exact ⟨hc _ hline, hr⟩
  cases h with
  | unread | clean | exhausted => exact hls
  | unset n _ hd hn hsame =>
    rw [hsame hw]
    exact hls
  | unreplaced n letters hd hn hletters => exact hls.append n (hletters.isFounded hrefused)
  | replaced n letters hd hn hletters => exact hls.append n (hletters.isFounded hrefused)

theorem BatchRead.areFounded {r : Except Fault (Option Batch)}
    (h : BatchRead p host s fs ls r s' fs' ls') (hw : host.IsWilling)
    (hfs : ∀ f ∈ fs, ∀ line ∈ lines f.2, Text.IsPlain line) (hls : AreFounded ls) :
    AreFounded ls' := by
  -- along the files that are passed over
  induction h with
  | nothing => exact hls
  | failed s name c rest ls f s' fs' ls' hr =>
    exact hr.areFounded hw (hfs _ List.mem_cons_self) hls
  | batch s name c rest ls s' fs' ls' hne hr =>
    exact hr.areFounded hw (hfs _ List.mem_cons_self) hls
  | unremoved s name c rest ls f s' fs' ls' he hr =>
    exact hr.areFounded hw (hfs _ List.mem_cons_self) hls
  | pass s name c c' rest ls s₁ ls₁ size he hr hsize hrest ih =>
    exact ih (fun f hf => hfs f (List.mem_cons_of_mem _ hf))
      (hr.areFounded hw (hfs _ List.mem_cons_self) hls)

end Spool

/-- If all dead letters are of lines of text that are refused, none shows a line of text that is
read. -/
theorem Disk.hasNoLetterOf {d : Disk} (h : Spool.AreFounded d.letters) {line : Octets}
    (hline : Text.IsPlain line) {e : Event} (hr : Event.read line = .ok e) :
    d.HasNoLetterOf line := by
  intro n
  obtain ⟨letters, htext, hfounded⟩ := h n
  refine ⟨letters, htext, ?_⟩
  intro l hl hshown
  obtain ⟨x, timestamp, sourceFile, rfl, hplain, hrefused⟩ := hfounded l hl
  -- the two lines are shown alike, so they are one, but one is read and the other refused
  have hsame : x.line = line := hplain.eq_of_lossy hline hshown
  rw [hsame, hr] at hrefused
  cases hrefused

/-! ## Event files -/

namespace Spool

/-- Complete lines, each of them text. -/
structure IsPlainFile (c : Octets) : Prop where
  whole : IsWhole c
  plain : ∀ line ∈ lines c, Text.IsPlain line

variable {c c' : Octets}

theorem isPlainFile_nil : IsPlainFile [] := by
  refine ⟨.inl rfl, ?_⟩
  intro line hline
  rw [lines_nil, List.mem_singleton] at hline
  rw [hline]
  exact Text.isPlain_nil

theorem IsPlainFile.append_event (h : IsPlainFile c) (e : Event) :
    IsPlainFile (c ++ (e.written ++ [lineFeed])) := by
  refine ⟨IsWhole.append_line _ _, ?_⟩
  intro line hline
  rcases mem_lines_append_line h.whole e.feed_not_mem_written hline with hline | rfl | rfl
  · exact h.plain line hline
  · exact e.isPlain_written
  · exact Text.isPlain_nil

theorem IsPlainFile.left (h : IsPlainFile c) (hc : IsLeftOf c c') : IsPlainFile c' := by
  refine ⟨hc.isWhole h.whole, ?_⟩
  rcases hc with rfl | rfl
  · exact h.plain
  · intro line hline
    rcases mem_lines_kept (not_mem_lines c) hline with hline | rfl
    · exact h.plain line hline
    · exact Text.isPlain_nil

end Spool

namespace Session

/-! ## Steps -/

/-- The operation neither reads nor puts a line into a file. -/
def IsQuiet : Exchange → Prop
  | .write _ (.ok ()) => False
  | .read _ => False
  | _ => True

/-- What an operation makes of the event files `fs`, in a session that is `y` after it. -/
inductive Moves (fs : Named Octets) (y : Session) : Exchange → Named Octets → Prop where
  | same (l : Exchange) (hquiet : IsQuiet l) : Moves fs y l fs
  | written (e : Event) (n : Nat)
      (hcur : ∃ s, y.spool = some s ∧ s.current = some (fileName eventStem n)) :
      Moves fs y (.write e (.ok ())) (Named.insert (fileName eventStem n)
        ((Named.get? fs (fileName eventStem n)).getD [] ++ (e.written ++ [lineFeed])) fs)
  | nothing (hheld : held fs = []) : Moves fs y (.read (.ok none)) []
  | batch (name : String) (c c' : Octets) (passed rest : Named Octets)
      (hfs : fs = passed ++ (name, c) :: rest) (hpassed : held passed = []) (hc : IsLeftOf c c') :
      Moves fs y (.read (.ok (some ⟨eventsIn c, .file name⟩))) ((name, c') :: rest)
  | exhausted (passed rest : Named Octets) (hfs : fs = passed ++ rest)
      (hmax : ∃ s, y.spool = some s ∧ maxStamp ≤ s.highestStamp) :
      Moves fs y (.read (.error .stampsExhausted)) rest
  | removed (answer : Except Fault Unit) (name : String) :
      Moves fs y (.commit answer) (Named.erase name fs)

/-- What every operation keeps. -/
structure Tidy (p : Place) (x : Session) (fs : Named Octets) : Prop where
  stores : x.disk.Stores p fs
  founded : Spool.AreFounded x.disk.letters
  plain : ∀ f ∈ fs, Spool.IsPlainFile f.2
  current : ∀ s, x.spool = some s → ∀ name, s.current = some name → ∃ n, name = fileName eventStem n
  /-- The file of the batch that is out is there. -/
  batch : ∀ q, x.batch = some q → ∀ name, q.batch.token = .file name →
    ∃ c, Named.get? fs name = some c

variable {p : Place} {x y : Session} {fs : Named Octets}

/-- The event files and dead letters are as before, and so is the batch that is out. -/
theorem Tidy.same (h : x.Tidy p fs) {s : Spool} {d : Disk} (hd : d.Stores p fs)
    (hl : d.letters = x.disk.letters)
    (hc : ∀ name, s.current = some name → ∃ n, name = fileName eventStem n) :
    Tidy p ⟨some s, d, x.batch⟩ fs := by
  refine ⟨hd, ?_, h.plain, fun t ht => ?_, h.batch⟩
  · rw [hl]
    exact h.founded
  · cases ht
    exact hc

theorem Tidy.write (h : x.Tidy p fs) (hp : p.IsUnlinked) {s : Spool} (hs : x.spool = some s)
    (e : Event) :
    ∃ gs, (x.written s e).Tidy p gs ∧
      Moves fs (x.written s e) (.write e (s.write x.disk e).1) gs := by
  obtain ⟨r, s', d', gs, hrun, h', hl, hw⟩ := h.stores.write hp (h.current s hs) e
  have hy : x.written s e = ⟨some s', d', x.batch⟩ := by rw [Session.written, hrun]
  have hsame : ∀ f, Moves fs ⟨some s', d', x.batch⟩ (.write e (.error f)) fs :=
    fun f => .same _ trivial
  -- the chosen file has a stamp
  have hchosen : ∀ {n : Nat}, s'.current = some (fileName eventStem n) →
      ∀ name, s'.current = some name → ∃ n, name = fileName eventStem n := by
    intro n hc name hname
    rw [hc] at hname
    exact ⟨n, (Option.some.inj hname).symm⟩
  rw [hy, hrun]
  cases hw with
  | exhausted hmax => exact ⟨fs, h.same h' hl (h.current s hs), hsame _⟩
  | untold name f hc hno => exact ⟨fs, h.same h' hl (h.current s hs), hsame _⟩
  | full n highest limit ha hlimit hle => exact ⟨fs, h.same h' hl (hchosen rfl), hsame _⟩
  | failed n highest op f _ ha hroom hop hfs hno =>
    obtain ⟨rfl, -⟩ := hno h.stores.willing
    exact ⟨gs, h.same h' hl (hchosen rfl), hsame _⟩
  | done n highest ha htarget hroom hfit =>
    -- the only answer that tells of a line that has been put
    refine ⟨_, ⟨h', ?_, ?_, ?_, ?_⟩, .written e n ⟨_, rfl, rfl⟩⟩
    · rw [hl]
      exact h.founded
    · intro f hf
      rcases Named.mem_insert hf with rfl | hf
      · -- the file with the new line, which was there before or is new
        refine Spool.IsPlainFile.append_event ?_ e
        cases hg : Named.get? fs (fileName eventStem n) with
        | none => exact Spool.isPlainFile_nil
        | some c => exact h.plain _ (Named.mem_of_get? hg)
      · exact h.plain f hf
    · intro t ht
      cases ht
      exact hchosen rfl
    · intro q hq name hname
      rw [Named.get?_insert]
      split
      · exact ⟨_, rfl⟩
      · exact h.batch q hq name hname

/-- Some of the files, the first perhaps without its damaged lines, are complete lines too. -/
theorem Tidy.read (h : x.Tidy p fs) (hp : p.IsUnlinked) {s : Spool} (hs : x.spool = some s) :
    ∃ gs, (x.fetched s).Tidy p gs ∧
      Moves fs (x.fetched s) (.read (s.nextBatch x.disk).1) gs := by
  obtain ⟨r, s', d', gs, hrun, h', hbatch, hr⟩ := h.stores.nextBatch hp s
  have hy : x.fetched s = ⟨some s', d', brought r⟩ := by rw [fetched, hrun]
  have hfounded : Spool.AreFounded d'.letters :=
    hbatch.areFounded h.stores.willing (fun f hf => (h.plain f hf).plain) h.founded
  have hcurrent : ∀ t, some s' = some t → ∀ name, t.current = some name →
      ∃ n, name = fileName eventStem n := by
    intro t ht name hname
    cases ht
    rcases hbatch.follows.current with hc | hc
    · rw [hc] at hname
      exact h.current s hs name hname
    · rw [hc] at hname
      cases hname
  rw [hy, hrun]
  cases hr with
  | nothing _ hheld =>
    refine ⟨[], ⟨h', hfounded, ?_, hcurrent, ?_⟩, .nothing hheld⟩
    · intro f hf
      cases hf
    · intro q hq
      cases hq
  | batch name c c' passed rest _ hfs hpassed hc hc' =>
    have hmem : ∀ f ∈ (name, c) :: rest, f ∈ fs := by
      intro f hf
      rw [hfs]
      exact List.mem_append_right _ hf
    refine ⟨_, ⟨h', hfounded, ?_, hcurrent, ?_⟩, .batch name c c' passed rest hfs hpassed hc'⟩
    · intro f hf
      rcases List.mem_cons.mp hf with rfl | hf
      · exact (h.plain _ (hmem _ List.mem_cons_self)).left hc'
      · exact h.plain f (hmem f (List.mem_cons_of_mem _ hf))
    · intro q hq name' hname'
      cases hq
      cases hname'
      exact ⟨c', Named.get?_first name c' rest⟩
  | exhausted passed rest _ hfs hpassed hf hmax =>
    refine ⟨_, ⟨h', hfounded, ?_, hcurrent, ?_⟩, .exhausted passed _ hfs ⟨s', rfl, hmax⟩⟩
    · intro f hf
      exact h.plain f (hfs ▸ List.mem_append_right _ hf)
    · intro q hq
      cases hq

/-- Committing removes the file of the batch that is out, whichever spool does it. -/
theorem Tidy.commit (h : x.Tidy p fs) {q : Outstanding} {name : String} (hq : x.batch = some q)
    (ht : q.batch.token = .file name) (s : Spool) :
    ∃ s' d', s.commit x.disk name = (.ok (), s', d') ∧ s'.current = s.current ∧
      d'.Stores p (Named.erase name fs) ∧ d'.letters = x.disk.letters := by
  obtain ⟨c, hc⟩ := h.batch q hq name ht
  obtain ⟨d', hrun, h', hl⟩ := h.stores.removeFile s hc
  exact ⟨_, d', hrun, rfl, h', hl⟩

/-- Fewer files, and no batch out. -/
theorem Tidy.erase (h : x.Tidy p fs) {name : String} {d : Disk}
    (hd : d.Stores p (Named.erase name fs)) (hl : d.letters = x.disk.letters) {s' : Option Spool}
    (hc : ∀ s, s' = some s → ∀ name, s.current = some name → ∃ n, name = fileName eventStem n) :
    Tidy p ⟨s', d, none⟩ (Named.erase name fs) := by
  refine ⟨hd, ?_, ?_, hc, ?_⟩
  · rw [hl]
    exact h.founded
  · intro f hf
    exact h.plain f (List.mem_of_mem_filter hf)
  · intro q hq
    cases hq

theorem Tidy.opened (h : x.Tidy p fs) (params : SpoolParameters) (registry : Registry)
    (hr : Disk.reach x.disk.host.pathLimit x.disk.root (params.directory.getD "") =
      x.disk.directory) : (x.replaced params registry).Tidy p fs := by
  obtain ⟨h', hl, hopened⟩ := h.stores.create params registry hr
  have hfounded := h.founded
  rw [← hl] at hfounded
  rw [replaced]
  rcases hrun : Spool.create params registry x.disk with ⟨r, registry', d'⟩
  rw [hrun] at h' hopened hfounded
  cases r with
  | error f => exact ⟨h', hfounded, h.plain, h.current, h.batch⟩
  | ok s =>
    refine ⟨h', hfounded, h.plain, ?_, ?_⟩
    · intro t ht name hname
      cases ht
      rw [(hopened s rfl).current] at hname
      cases hname
    · intro q hq name hname
      obtain ⟨q', hq', rfl⟩ := Option.map_eq_some_iff.mp hq
      exact h.batch q' hq' name hname

/-- One operation, one case for each. -/
theorem Tidy.step (h : x.Tidy p fs) (hp : p.IsUnlinked) {l : Exchange} (hs : Step x l y) :
    ∃ gs, y.Tidy p gs ∧ Moves fs y l gs := by
  have hsame : ∀ {l : Exchange}, IsQuiet l → y.Tidy p fs →
      ∃ gs, y.Tidy p gs ∧ Moves fs y l gs :=
    fun hquiet hy => ⟨fs, hy, .same _ hquiet⟩
  cases hs with
  | write s hs e => exact h.write hp hs e
  | read s hs hb => exact h.read hp hs
  | commit s b name hs hb ht =>
    obtain ⟨s', d', hrun, hcur, h', hl⟩ := h.commit hb ht s
    rw [committed, hrun]
    refine ⟨_, h.erase h' hl ?_, .removed _ name⟩
    intro t ht' name' hname'
    cases ht'
    rw [hcur] at hname'
    exact h.current s hs name' hname'
  | commitFormer former b name hb ht =>
    obtain ⟨s', d', hrun, hcur, h', hl⟩ := h.commit hb ht former
    rw [committedFormer, hrun]
    exact ⟨_, h.erase h' hl h.current, .removed _ name⟩
  | drop q hb =>
    refine hsame trivial ⟨h.stores, h.founded, h.plain, h.current, ?_⟩
    intro q hq
    cases hq
  | refresh s hs =>
    obtain ⟨d', hrun, h', hl⟩ := h.stores.refreshGauges s
    refine hsame trivial ?_
    rw [refreshed, hrun]
    exact h.same h' hl (h.current s hs)
  | close s hs =>
    refine hsame trivial (h.same h.stores rfl ?_)
    intro name hname
    cases hname
  | opened params registry hr =>
    exact hsame trivial (h.opened params registry hr)

theorem Tidy.runs (h : x.Tidy p fs) (hp : p.IsUnlinked) {ok : Exchange → Session → Prop}
    (hr : Runs ok x y) : ∃ gs, y.Tidy p gs := by
  induction hr with
  | refl => exact ⟨fs, h⟩
  | tail _ hs ih =>
    obtain ⟨gs, hy⟩ := ih
    obtain ⟨l, hstep, -⟩ := hs
    obtain ⟨gs', hz, -⟩ := hy.step hp hstep
    exact ⟨gs', hz⟩

/-! ## Until a file is read -/

/-- After the operation the file is there, and no batch has been read from it. -/
def Spares (name : String) (l : Exchange) (x : Session) : Prop :=
  (x.disk.eventFile? name).isSome = true ∧ ∀ b, l = .read (.ok (some b)) → b.token ≠ .file name

/-- The last of all stamps has not been given. -/
def HasStamps (x : Session) : Prop :=
  ∀ s, x.spool = some s → s.highestStamp < maxStamp

variable {gs : Named Octets} {l : Exchange} {name : String} {c : Octets}

/-- A file among those that are left has the contents that it had among all. -/
theorem get?_of_mem_rest (ho : Named.IsOrdered fs) (hg : Named.get? fs name = some c)
    (hrest : ∀ g ∈ gs, g ∈ fs) (hthere : (Named.get? gs name).isSome = true) :
    Named.get? gs name = some c := by
  obtain ⟨c', hc'⟩ := Option.isSome_iff_exists.mp hthere
  have hmem := hrest _ (Named.mem_of_get? hc')
  rw [hc', ← hg, ho.get?_of_mem hmem]

/-- A file that is spared only grows. -/
theorem Moves.spared (h : Moves fs y l gs) (ho : Named.IsOrdered fs)
    (hg : Named.get? fs name = some c) (hthere : (Named.get? gs name).isSome = true)
    (htoken : ∀ b, l = .read (.ok (some b)) → b.token ≠ .file name) :
    ∃ later, Named.get? gs name = some (c ++ later) := by
  cases h with
  | same => exact ⟨[], by rw [hg, List.append_nil]⟩
  | written e n hcur =>
    -- a line is put behind this file or into another one
    rw [Named.get?_insert]
    by_cases hn : name = fileName eventStem n
    · rw [if_pos hn, ← hn, hg, Option.getD_some]
      exact ⟨_, rfl⟩
    · rw [if_neg hn]
      exact ⟨[], by rw [hg, List.append_nil]⟩
  | nothing =>
    -- no file is left
    cases hthere
  | batch name' c₁ c₂ passed rest hfs hpassed hc =>
    -- the batch is from another file, which stands before it
    have hne : name ≠ name' := by
      rintro rfl
      exact htoken _ rfl rfl
    rw [Named.get?_cons, if_neg hne] at hthere ⊢
    have hrest : ∀ g ∈ rest, g ∈ fs := by
      intro g hg
      rw [hfs]
      exact List.mem_append_right _ (List.mem_cons_of_mem _ hg)
    exact ⟨[], by rw [get?_of_mem_rest ho hg hrest hthere, List.append_nil]⟩
  | exhausted passed _ hfs hmax =>
    have hrest : ∀ g ∈ gs, g ∈ fs := by
      intro g hg
      rw [hfs]
      exact List.mem_append_right _ hg
    exact ⟨[], by rw [get?_of_mem_rest ho hg hrest hthere, List.append_nil]⟩
  | removed answer name' =>
    -- the committed file is another one, as this one is there
    rw [Named.get?_erase] at hthere ⊢
    by_cases hn : name = name'
    · rw [if_pos hn] at hthere
      cases hthere
    · rw [if_neg hn]
      exact ⟨[], by rw [hg, List.append_nil]⟩

/-- As long as it is spared. -/
theorem Tidy.spared (h : x.Tidy p fs) (hp : p.IsUnlinked) (hg : Named.get? fs name = some c)
    (hr : Runs (Spares name) x y) :
    ∃ gs later, y.Tidy p gs ∧ Named.get? gs name = some (c ++ later) := by
  induction hr with
  | refl => exact ⟨fs, [], h, by rw [hg, List.append_nil]⟩
  | tail _ hs ih =>
    obtain ⟨gs, later, hy, hgs⟩ := ih
    obtain ⟨l, hstep, hthere, htoken⟩ := hs
    obtain ⟨gs', hz, hmoves⟩ := hy.step hp hstep
    rw [hz.stores.eventFile?] at hthere
    obtain ⟨later', hgs'⟩ := hmoves.spared hy.stores.ordered hgs hthere htoken
    exact ⟨gs', later ++ later', hz, by rw [hgs', List.append_assoc]⟩

end Session

/-! ## Reading the file -/

namespace Spool

/-- The events of a file around one of its lines. -/
theorem eventsIn_around {before : Octets} (hb : IsWhole before) (e : Event) (later : Octets) :
    eventsIn (before ++ (e.written ++ [lineFeed]) ++ later) =
      eventsIn before ++ ((Event.read e.written).toOption.toList ++ eventsIn later) := by
  rw [eventsIn_append (IsWhole.append_line _ _), eventsIn_append hb,
    eventsIn_line e.feed_not_mem_written rfl, List.append_assoc]

/-- The event stands at its place exactly if it is read back from its line. -/
theorem eventsIn_around_iff {before : Octets} (hb : IsWhole before) (e : Event) (later : Octets) :
    eventsIn (before ++ (e.written ++ [lineFeed]) ++ later) =
      eventsIn before ++ e :: eventsIn later ↔ Event.read e.written = .ok e := by
  rw [eventsIn_around hb, List.append_right_inj, ← List.singleton_append, List.append_left_inj]
  cases Event.read e.written with
  | ok e' => simp [Except.toOption]
  | error f => simp [Except.toOption]

theorem eventsIn_eq_nil {fs : Named Octets} {name : String} {c : Octets} (h : held fs = [])
    (hmem : (name, c) ∈ fs) : eventsIn c = [] :=
  List.flatMap_eq_nil_iff.mp h _ hmem

end Spool

namespace Session

variable {y : Session} {fs gs : Named Octets} {name : String}

/-- A reading that does not spare the file gives its events, or the file holds none. -/
theorem Moves.read_reached {answer : Except Fault (Option Batch)} {c : Octets}
    (h : Moves fs y (.read answer) gs) (ho : Named.IsOrdered fs)
    (hg : Named.get? fs name = some c) (hs : y.HasStamps)
    (hreach : (Named.get? gs name).isSome = true →
      ∃ b, answer = .ok (some b) ∧ b.token = .file name) :
    answer = .ok (some ⟨eventsIn c, .file name⟩) ∨
    (eventsIn c = [] ∧ ∀ es, answer ≠ .ok (some ⟨es, .file name⟩)) := by
  have hmem := Named.mem_of_get? hg
  cases h with
  | same _ hquiet => exact hquiet.elim
  | nothing hheld =>
    -- no file held an event
    refine .inr ⟨Spool.eventsIn_eq_nil hheld hmem, ?_⟩
    intro es heq
    cases heq
  | batch name' c₁ c₂ passed rest hfs hpassed hc =>
    by_cases hn : name = name'
    · subst hn
      have hfirst : (name, c₁) ∈ fs := by
        rw [hfs]
        exact List.mem_append_right _ List.mem_cons_self
      rw [ho.get?_of_mem hfirst, Option.some.injEq] at hg
      rw [hg]
      exact .inl rfl
    · -- another file was read
      refine .inr ⟨?_, ?_⟩
      · -- it stood before the file that was read
        rw [hfs] at hmem
        rcases List.mem_append.mp hmem with hmem | hmem
        · exact Spool.eventsIn_eq_nil hpassed hmem
        · rcases List.mem_cons.mp hmem with heq | hmem
          · exact absurd (Prod.mk.inj heq).1 hn
          · have hthere : (Named.get? ((name', c₂) :: rest) name).isSome = true := by
              have horest : Named.IsOrdered rest := by
                rw [hfs] at ho
                exact (List.pairwise_cons.mp (List.pairwise_append.mp ho).2.1).2
              rw [Named.get?_cons, if_neg hn, horest.get?_of_mem hmem]
              rfl
            obtain ⟨b, hb, htoken⟩ := hreach hthere
            cases hb
            exact absurd (Token.file.inj htoken).symm hn
      · intro es heq
        cases heq
        exact hn rfl
  | exhausted _ _ _ hmax =>
    obtain ⟨s, hspool, hle⟩ := hmax
    exact absurd (hs s hspool) (Nat.not_lt.mpr hle)

theorem tidy_start {p : Place} {d : Disk} (hp : p.found = []) (hd : d.Shows p []) :
    (start d).Tidy p [] := by
  have hfiles : Spool.files p.found = [] := by
    rw [hp]
    rfl
  have hletters : d.letters = fun _ => [] := by
    funext n
    rw [Disk.letters, hd.entries]
    rfl
  have hstores : d.Stores p (Spool.files p.found) := by
    refine Disk.Shows.stores (by rw [hp]; exact hd) ?_
    rw [hfiles]
    exact fun f hf => absurd hf List.not_mem_nil
  rw [hfiles] at hstores
  refine ⟨hstores, ?_, ?_, ?_, ?_⟩
  · rw [start, hletters]
    exact Spool.areFounded_nil
  · intro f hf
    cases hf
  · intro s hs
    cases hs
  · intro q hq
    cases hq

end Session

theorem Place.isUnlinked_of_empty {p : Place} (hp : p.found = []) : p.IsUnlinked := by
  constructor
  · intro name hn target ht
    rw [hp] at ht
    cases ht
  · intro n target ht
    rw [hp] at ht
    cases ht

/-- An event has been written to a file of a directory that was empty at first. The first reading
that does not spare this file gives the event between those of the lines before and behind its own,
and no dead letter is of its line, exactly if the event is legible. -/
theorem written_event_read_iff {p : Place} (hp : p.found = []) {d : Disk} (hd : d.Shows p [])
    {x y z w : Session} {e : Event} {name : String} {answer : Except Fault (Option Batch)}
    (hx : Session.Runs (fun _ _ => True) (.start d) x) (hb : e.IsBuilt)
    (hn : Json.MembersWhole e.fields) (hwrite : Session.Step x (.write e (.ok ())) y)
    (hname : ∃ s, y.spool = some s ∧ s.current = some name)
    (hz : Session.Runs (Session.Spares name) y z) (hread : Session.Step z (.read answer) w)
    (hreach : ¬ Session.Spares name (.read answer) w) (hs : w.HasStamps) :
    ∃ before later, (x.disk.eventFile? name).getD [] = before ∧
      z.disk.eventFile? name = some (before ++ (e.written ++ [lineFeed]) ++ later) ∧
      (answer = .ok (some ⟨eventsIn before ++ e :: eventsIn later, .file name⟩) ∧
        w.disk.HasNoLetterOf e.written ↔ e.IsLegible) := by
  have hunlinked := Place.isUnlinked_of_empty hp
  obtain ⟨fs, htx⟩ := (Session.tidy_start hp hd).runs hunlinked hx
  obtain ⟨gs, hty, hmoves⟩ := htx.step hunlinked hwrite
  -- the line is put behind what the file held
  have hwritten : Named.get? gs name =
        some ((Named.get? fs name).getD [] ++ (e.written ++ [lineFeed])) := by
    cases hmoves with
    | same _ hquiet => exact hquiet.elim
    | written _ n hcur =>
      obtain ⟨s, hspool, hcurrent⟩ := hcur
      obtain ⟨s', hspool', hcurrent'⟩ := hname
      rw [hspool] at hspool'
      cases hspool'
      rw [hcurrent] at hcurrent'
      cases hcurrent'
      exact Named.get?_insert_self _ _ _
  obtain ⟨hs', later, htz, hlater⟩ := hty.spared hunlinked hwritten hz
  obtain ⟨ks, htw, hreading⟩ := htz.step hunlinked hread
  have hwhole : IsWhole ((Named.get? fs name).getD []) := by
    cases hg : Named.get? fs name with
    | none => exact .inl rfl
    | some c => exact (htx.plain _ (Named.mem_of_get? hg)).whole
  have hthere : (Named.get? ks name).isSome = true →
      ∃ b, answer = .ok (some b) ∧ b.token = .file name := by
    intro hsome
    by_contra hnone
    refine hreach ⟨by rw [htw.stores.eventFile?, hsome], fun b hb htoken => hnone ⟨b, ?_, htoken⟩⟩
    exact Exchange.read.inj hb
  refine ⟨_, later, by rw [htx.stores.eventFile?], by rw [htz.stores.eventFile?, hlater], ?_⟩
  rw [← Event.read_written_eq_self_iff hb hn, ← Spool.eventsIn_around_iff hwhole e later]
  rcases hreading.read_reached htz.stores.ordered hlater hs hthere with hanswer | ⟨hnil, hanswer⟩
  · -- the events of the file have been given
    constructor
    · rintro ⟨heq, -⟩
      rw [hanswer] at heq
      exact congrArg Batch.events (Option.some.inj (Except.ok.inj heq))
    · intro hevents
      refine ⟨by rw [hanswer, hevents], ?_⟩
      exact Disk.hasNoLetterOf htw.founded e.isPlain_written
        ((Spool.eventsIn_around_iff hwhole e later).mp hevents)
  · -- the file held no event, so not this one
    constructor
    · rintro ⟨heq, -⟩
      exact absurd heq (hanswer _)
    · intro hevents
      rw [hnil] at hevents
      exact absurd hevents.symm (by simp)

namespace Session

def emptyPlace : Place := ⟨⟨["q"], 40⟩, 4000, []⟩

def emptyDisk : Disk :=
  ⟨.directory [("q", .directory [] Disk.privateDirectory)] Disk.privateDirectory,
    .ok emptyPlace.reached, emptyPlace.room, ⟨fun _ => none, fun _ => 0, 4095⟩, 0, 0⟩

theorem emptyDisk_shows : emptyDisk.Shows emptyPlace [] :=
  ⟨rfl, rfl, ⟨Disk.privateDirectory, by rfl⟩, List.Pairwise.nil, fun _ => rfl⟩

/-- A spool is opened in an empty directory. -/
def fresh : Session := (start emptyDisk).replaced ⟨some "q", none, none⟩ []

theorem fresh_isSome : fresh.spool.isSome = true := by decide +kernel

theorem runs_fresh : Runs (fun _ _ => True) (start emptyDisk) fresh := by
  have hopened : Step (start emptyDisk) _ fresh :=
    .opened ⟨some "q", none, none⟩ [] (by decide +kernel)
  exact .single ⟨_, hopened, trivial⟩

/-- A first event is written. -/
def freshWritten (e : Event) : Session := fresh.written (fresh.spool.get fresh_isSome) e

/-- The oldest events are read. -/
def thenRead (x : Session) (h : x.spool.isSome = true) : Session := x.fetched (x.spool.get h)

/-- What is answered then. -/
def answered (x : Session) (h : x.spool.isSome = true) : Except Fault (Option Batch) :=
  ((x.spool.get h).nextBatch x.disk).1

theorem step_freshWritten {e : Event}
    (h : ((fresh.spool.get fresh_isSome).write fresh.disk e).1 = .ok ()) :
    Step fresh (.write e (.ok ())) (freshWritten e) := by
  have hstep : Step fresh _ (freshWritten e) := .write _ (Option.some_get fresh_isSome).symm e
  rw [h] at hstep
  exact hstep

theorem step_thenRead {x : Session} (h : x.spool.isSome = true) (hb : x.batch = none)
    {answer : Except Fault (Option Batch)} (ha : x.answered h = answer) :
    Step x (.read answer) (x.thenRead h) := by
  have hstep : Step x _ (x.thenRead h) := .read _ (Option.some_get h).symm hb
  rw [← ha]
  exact hstep

/-- An event with a list, and another one behind it. -/
def noted : Event := (Event.new "a").withField "k" (.array [.number (.int 1)])

def notedTwice : Session := (freshWritten noted).written ((freshWritten noted).spool.get rfl) (.new "b")

theorem isBuilt_noted : noted.IsBuilt :=
  .withField (.new "a") "k" (by rw [Json.IsOrdered]; exact ⟨trivial, trivial⟩)

end Session

/-- The event with a list is read back, before the one behind it. -/
theorem written_event_read_iff_noted :
    Session.notedTwice.answered rfl =
      .ok (some ⟨[Session.noted, .new "b"], .file (fileName eventStem 1)⟩) ∧
    (Session.notedTwice.thenRead rfl).disk.HasNoLetterOf Session.noted.written := by
  have hanswer : Session.notedTwice.answered rfl =
      .ok (some ⟨[Session.noted, .new "b"], .file (fileName eventStem 1)⟩) := by decide +kernel
  have hwhole : Json.MembersWhole Session.noted.fields := by
    have hfields : Session.noted.fields = [("k", .array [.number (.int 1)])] := rfl
    rw [hfields]
    simp [Json.MembersWhole, Json.IsWhole, Json.AllWhole, Number.IsWhole]
  have hlegible : Session.noted.IsLegible := by
    have hfields : Session.noted.fields = [("k", .array [.number (.int 1)])] := rfl
    constructor
    · decide +kernel
    · rw [hfields]
      simp [Json.MembersLiteral, Json.IsLiteral, Json.AllLiteral]
  have hwrite := Session.step_freshWritten (e := Session.noted) (by decide +kernel)
  have hlater : Session.Runs (Session.Spares (fileName eventStem 1))
      (Session.freshWritten Session.noted) Session.notedTwice := by
    have hstep : Session.Step (Session.freshWritten Session.noted) _ Session.notedTwice :=
      .write _ (Option.some_get rfl).symm (.new "b")
    refine .single ⟨_, hstep, by decide +kernel, ?_⟩
    intro b hb
    cases hb
  have hread := Session.step_thenRead rfl rfl hanswer
  have hreach : ¬ Session.Spares (fileName eventStem 1) (.read (.ok (some
      ⟨[Session.noted, .new "b"], .file (fileName eventStem 1)⟩)))
      (Session.notedTwice.thenRead rfl) := by
    rintro ⟨-, htoken⟩
    exact htoken _ rfl rfl
  have hstamps : (Session.notedTwice.thenRead rfl).HasStamps := by
    intro s hs
    have hlast : (Session.notedTwice.thenRead rfl).spool.all (·.highestStamp < maxStamp) = true := by
      decide +kernel
    rw [hs] at hlast
    exact of_decide_eq_true hlast
  obtain ⟨before, later, -, -, hiff⟩ := written_event_read_iff (p := Session.emptyPlace) rfl
    Session.emptyDisk_shows Session.runs_fresh Session.isBuilt_noted hwhole hwrite
    ⟨_, rfl, by decide +kernel⟩ hlater hread hreach hstamps
  exact ⟨hanswer, (hiff.mpr hlegible).2⟩

/-! ## An event that is too deep -/

namespace Session

/-- So many lists inside another one. -/
def nested : Nat → Json
  | 0 => .array []
  | n + 1 => .array [nested n]

theorem nested_ordered (n : Nat) : (nested n).IsOrdered := by
  induction n with
  | zero =>
    rw [nested, Json.IsOrdered]
    trivial
  | succ n ih =>
    rw [nested, Json.IsOrdered]
    exact ⟨ih, trivial⟩

theorem nested_whole (n : Nat) : (nested n).IsWhole := by
  induction n with
  | zero =>
    rw [nested, Json.IsWhole]
    trivial
  | succ n ih =>
    rw [nested, Json.IsWhole]
    exact ⟨ih, trivial⟩

/-- The field has as many lists as a text may open containers; the event around it is one more. -/
def deep : Event := (Event.new "a").withField "k" (nested 126)

end Session

/-- The write of a deep event is acknowledged, but its line is refused. Reading its file gives no
event, removes the file and leaves a dead letter. -/
theorem deep_event_set_aside :
    Session.deep.IsBuilt ∧ Json.MembersWhole Session.deep.fields ∧
    Event.read Session.deep.written = .error (.malformed .tooDeep) ∧
    Session.emptyDisk.Shows Session.emptyPlace [] ∧
    Session.Runs (fun _ _ => True) (.start Session.emptyDisk) Session.fresh ∧
    Session.Step Session.fresh (.write Session.deep (.ok ()))
      (Session.freshWritten Session.deep) ∧
    Session.Step (Session.freshWritten Session.deep) (.read (.ok none))
      ((Session.freshWritten Session.deep).thenRead rfl) ∧
    ((Session.freshWritten Session.deep).thenRead rfl).disk.eventFile? (fileName eventStem 1) =
      none ∧
    ((Session.freshWritten Session.deep).thenRead rfl).disk.letters 2 ≠ [] := by
  have hbuilt : Session.deep.IsBuilt := .withField (.new "a") "k" (Session.nested_ordered 126)
  have hwhole : Json.MembersWhole Session.deep.fields := by
    have hfields : Session.deep.fields = [("k", Session.nested 126)] := rfl
    rw [hfields, Json.MembersWhole]
    exact ⟨Session.nested_whole 126, trivial⟩
  have hwrite := Session.step_freshWritten (e := Session.deep) (by decide +kernel)
  have hread : Session.Step (Session.freshWritten Session.deep) (.read (.ok none))
      ((Session.freshWritten Session.deep).thenRead rfl) :=
    Session.step_thenRead rfl rfl (by decide +kernel)
  exact ⟨hbuilt, hwhole, by decide +kernel, Session.emptyDisk_shows, Session.runs_fresh, hwrite,
    hread, by decide +kernel, by decide +kernel⟩

end AuditRelay
