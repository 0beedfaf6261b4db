import AuditRelay.Proofs.Store.FirstReads
import AuditRelay.Proofs.Store.Turns

/-!
# AuditRelay.Proofs.Store.SetAside — a damaged line is set aside once

Spools write, read and commit in a directory of event files, one after the other, with any number of
batches out, and nothing that reading needs fails (`Depot.Flawless`; where no call is refused nothing
does, `Reaches.flawless`). A chronicle is kept of the files that are read for the first time
(`Depot.Reaches`). At any time the dead letters are exactly those of these first reads; a file that has
been read holds what its first read left of it, until it is removed; and the open spool has counted the
damaged lines that it came upon (`damaged_lines_set_aside_once`).

The invariant is `Depot.Keeps`. An event is never put behind what has been read: reading a file makes
it the current file no more, and a new file gets a stamp that no file has.
-/

namespace AuditRelay

open Spool (fileName eventStem isEventFile stampLimit tempName leftBy consulted firstBatch IsSetAside
  HasCounted HasSetAside CountsAlike countsAlike_of_eq countsAlike_of_append asideErrors Wrote
  writeErrors)

/-! ## Runs and their chronicles -/

/-- The stamp of the open spool has at most twenty digits. -/
def Depot.InLimit (x : Depot) : Prop := ∀ s, x.spool = some s → s.highestStamp < stampLimit

/-- What an operation in a directory of these files adds to the chronicle. -/
def Chronicle.told (g : Chronicle) (fs : Named Octets) : Exchange → Chronicle
  | .read _ => (consulted fs).foldl note g
  | .opened (.ok ()) => g.turned
  | .write _ _ | .commit _ | .drop | .refresh _ | .close | .opened (.error _) => g

/-- The chronicle after an operation. -/
def Chronicle.after (g : Chronicle) (x : Depot) (l : Exchange) (y : Depot) : Chronicle :=
  (g.told x.disk.files l).among y.disk.files

/-- The depots that a run from a directory comes to, each with the chronicle of the run. Every operation
keeps to what is asked of it and of the depot after it. -/
inductive Depot.Reaches (ok : Exchange → Depot → Prop) (d : Disk) : Depot → Chronicle → Prop where
  | start : Reaches ok d (.start d) .blank
  | step {x y : Depot} {g : Chronicle} {l : Exchange} (h : Reaches ok d x g) (hs : Step x l y)
      (hok : ok l y) : Reaches ok d y (g.after x l y)

/-- Nothing that reading needs has failed. -/
structure Depot.Flawless (l : Exchange) (y : Depot) : Prop where
  limit : y.InLimit
  answered : ∀ f, l ≠ .read (.error f)
  aside : ∀ s, y.spool = some s → s.HasSetAside

/-- Nothing stands there but event files with stamps of twenty digits. -/
def Place.IsPlain (p : Place) : Prop :=
  ∀ f ∈ p.found, ∃ n c mode, n < stampLimit ∧ f = (fileName eventStem n, .file c mode)

namespace Place.IsPlain

variable {p : Place}

theorem regular (hp : p.IsPlain) (name : String) (node : Node)
    (h : Named.get? p.found name = some node) : ∃ c mode, node = .file c mode := by
  obtain ⟨n, c, mode, -, hf⟩ := hp _ (Named.mem_of_get? h)
  exact ⟨c, mode, (Prod.mk.inj hf).2⟩

theorem isUnlinked (hp : p.IsPlain) : p.IsUnlinked := by
  have hnone : ∀ name target, Named.get? p.found name ≠ some (.link target) := by
    intro name target ht
    obtain ⟨c, mode, hnode⟩ := hp.regular name _ ht
    cases hnode
  exact ⟨fun name _ => hnone name, fun n => hnone _⟩

/-- There are no dead letters yet. -/
theorem lettersIn_found (hp : p.IsPlain) (n : Nat) : Spool.lettersIn p.found n = [] := by
  refine Spool.lettersIn_eq_nil fun c mode hf => ?_
  obtain ⟨m, c', mode', -, heq⟩ := hp _ hf
  exact Spool.ne_deadLetters (Spool.isEventFile_fileName m) n (Prod.mk.inj heq).1.symm

end Place.IsPlain

/-! ## The invariant -/

/-- What the open spool knows of the directory and of what has been read. -/
structure Spool.Heeds (s : Spool) (fs : Named Octets) (g : Chronicle) : Prop where
  limit : s.highestStamp < stampLimit
  newest : ∀ n < stampLimit, ∀ c, Named.get? fs (fileName eventStem n) = some c →
    n ≤ s.highestStamp
  current : ∀ name, s.current = some name →
    (∃ n ≤ s.highestStamp, name = fileName eventStem n) ∧ g.seen name = none
  tally : s.HasCounted g.tally

/-- What a depot and its chronicle keep to. -/
structure Depot.Keeps (p : Place) (host : Host) (x : Depot) (g : Chronicle) (fs : Named Octets)
    (ls : Nat → Octets) : Prop where
  stands : x.Stands p host fs ls
  named : ∀ name c, Named.get? fs name = some c → ∃ n < stampLimit, name = fileName eventStem n
  letters : IsSetAside g.reads ls
  seen : ∀ name c, g.seen name = some c → Named.get? fs name = some (leftBy c)
  heeds : ∀ s, x.spool = some s → s.Heeds fs g

namespace Spool

variable {p : Place} {host : Host} {s s' : Spool} {d : Disk} {fs fs' : Named Octets}
  {g : Chronicle}

/-- A spool that has no other current file follows when files go. -/
theorem Heeds.fewer (h : s.Heeds fs g) (hcurrent : s'.current = s.current ∨ s'.current = none)
    (hstamp : s'.highestStamp = s.highestStamp) (hcounts : CountsAlike s s')
    (hfs : ∀ k c, Named.get? fs' k = some c → Named.get? fs k = some c) :
    s'.Heeds fs' (g.among fs') := by
  constructor
  · rw [hstamp]
    exact h.limit
  · intro n hn c hc
    rw [hstamp]
    exact h.newest n hn c (hfs _ c hc)
  · intro name hname
    rcases hcurrent with hcur | hcur
    · obtain ⟨hnamed, hseen⟩ := h.current name (hcur ▸ hname)
      rw [hstamp]
      exact ⟨hnamed, Chronicle.among_seen_eq_none hseen fs'⟩
    · rw [hcur] at hname
      contradiction
  · exact hcounts.hasCounted h.tally

/-- A write counts nothing of damaged lines. -/
theorem Wrote.countsAlike {line : Octets} {r : Except Fault Unit}
    (h : Wrote p host s d fs line r s' fs') : CountsAlike s s' := by
  have hapart : ∀ op ∈ asideErrors, op ∉ writeErrors := by decide
  obtain ⟨new, herrors, hnew⟩ := h.errors
  exact countsAlike_of_append herrors fun op hop => mt (@hnew op) (hapart op hop)

/-- A write goes into no file that has been read. -/
theorem Heeds.wrote (h : s.Heeds fs g) {line : Octets} {r : Except Fault Unit}
    (hw : Wrote p host s d fs line r s' fs') (hl : s'.highestStamp < stampLimit)
    (hseen : ∀ name c, g.seen name = some c → Named.get? fs name = some (leftBy c)) :
    s'.Heeds fs' (g.among fs') ∧
    (∀ name c, g.seen name = some c → Named.get? fs' name = some (leftBy c)) ∧
    ∀ name c, Named.get? fs' name = some c →
      (∃ c', Named.get? fs name = some c') ∨ ∃ n < stampLimit, name = fileName eventStem n := by
  have hcounts := hw.countsAlike
  rcases hw.aims_or_still with ⟨hcurrent, hstamp, rfl⟩ | ⟨n, hcurrent, haims, hfs⟩
  · refine ⟨?_, hseen, fun name c hc => .inl ⟨c, hc⟩⟩
    exact h.fewer (.inl hcurrent) hstamp hcounts fun _ _ hc => hc
  · have hn := haims.stamp_le fun name hname => (h.current name hname).1
    have hle := haims.highest_ge
    -- the file that has been chosen was not read
    have hnone : g.seen (fileName eventStem n) = none := by
      rcases haims.current_or_new with ⟨hcur, -⟩ | ⟨hnew, -⟩
      · exact (h.current _ hcur).2
      · rw [Option.eq_none_iff_forall_ne_some]
        intro c hc
        exact absurd (h.newest n (lt_of_le_of_lt hn hl) _ (hseen _ c hc))
          (Nat.not_le.mpr hnew.behind)
    -- the others are as before
    have hothers : ∀ k, k ≠ fileName eventStem n → Named.get? fs' k = Named.get? fs k := by
      intro k hk
      rcases hfs with rfl | rfl | ⟨-, taken, rfl⟩
      · rfl
      · rw [Named.get?_insert, if_neg hk]
      · rw [Named.get?_insert, if_neg hk]
    refine ⟨⟨hl, ?_, ?_, ?_⟩, ?_, ?_⟩
    · intro m hm c hc
      by_cases hmn : fileName eventStem m = fileName eventStem n
      · exact (stamp_injective hmn).le.trans hn
      · rw [hothers _ hmn] at hc
        exact (h.newest m hm c hc).trans hle
    · intro name hname
      rw [hcurrent, Option.some.injEq] at hname
      rw [← hname]
      exact ⟨⟨n, hn, rfl⟩, Chronicle.among_seen_eq_none hnone fs'⟩
    · exact hcounts.hasCounted h.tally
    · intro name c hc
      have hname : name ≠ fileName eventStem n := by
        rintro rfl
        rw [hnone] at hc
        contradiction
      rw [hothers name hname]
      exact hseen name c hc
    · intro name c hc
      by_cases hname : name = fileName eventStem n
      · exact .inr ⟨n, lt_of_le_of_lt hn hl, hname⟩
      · rw [hothers name hname] at hc
        exact .inl ⟨c, hc⟩

theorem Removed.countsAlike {name : String} (h : Removed s fs name s' fs') : CountsAlike s s' := by
  rcases h.errors with herrors | herrors
  · exact countsAlike_of_eq herrors
  · have hapart : ∀ op ∈ asideErrors, op ∉ [FailurePoint.commitRemove] := by decide
    exact countsAlike_of_append herrors hapart

end Spool

theorem Chronicle.told_of_isStill {l : Exchange} (h : l.IsStill) (g : Chronicle)
    (fs : Named Octets) : g.told fs l = g := by
  rcases l with _ | _ | _ | _ | _ | _ | (_ | _)
  all_goals first | rfl | exact h.elim

/-! ## Operations -/

namespace Depot

variable {p : Place} {host : Host} {x y : Depot} {g : Chronicle} {fs fs' : Named Octets}
  {ls ls' : Nat → Octets} {l : Exchange}

/-- The dead letters stay, and files may go. -/
theorem Keeps.fewer (h : x.Keeps p host g fs ls) (hy : y.Stands p host fs' ls)
    (hfs : ∀ k c, Named.get? fs' k = some c → Named.get? fs k = some c)
    (hs : ∀ t, y.spool = some t → ∃ t₀, x.spool = some t₀ ∧
      (t.current = t₀.current ∨ t.current = none) ∧ t.highestStamp = t₀.highestStamp ∧
      CountsAlike t₀ t) : y.Keeps p host (g.among fs') fs' ls := by
  constructor
  · exact hy
  · exact fun name c hc => h.named name c (hfs name c hc)
  · exact h.letters
  · intro name c hc
    obtain ⟨hseen, c', hthere⟩ := Chronicle.among_seen hc
    have hbefore := hfs name c' hthere
    rw [h.seen name c hseen] at hbefore
    rw [hthere, hbefore]
  · intro t ht
    obtain ⟨t₀, ht₀, hcurrent, hstamp, hcounts⟩ := hs t ht
    exact (h.heeds t₀ ht₀).fewer hcurrent hstamp hcounts hfs

theorem Keeps.accounts (h : x.Keeps p host g fs ls) {s : Spool} (hs : x.spool = some s) :
    g.Accounts s fs ls := by
  have hf := h.heeds s hs
  constructor
  · exact h.letters
  · intro name c c' hc hc'
    rw [h.seen name c hc, Option.some.injEq] at hc'
    exact hc'.symm
  · exact hf.tally
  · exact fun name hname => (hf.current name hname).2

/-- A batch that has been read: the files that the read went through are noted. -/
theorem Keeps.read (h : x.Keeps p host g fs ls) {s s' : Spool} {r : Except Fault (Option Batch)}
    {d : Disk} {out : List Outstanding} (hs : x.spool = some s)
    (hr : Spool.BatchRead p host s fs ls r s' fs' ls') (hy : Stands p host ⟨some s', d, out⟩ fs' ls')
    (hok : Flawless (.read r) ⟨some s', d, out⟩) :
    Keeps p host ⟨some s', d, out⟩ (((consulted fs).foldl Chronicle.note g).among fs') fs' ls' := by
  have hf := h.heeds s hs
  have ho := h.stands.houses.ordered
  have hanswered : ∀ f, r ≠ .error f := fun f hf => hok.answered f (congrArg _ hf)
  obtain ⟨-, hafter⟩ := hr.accounts ho hanswered (hok.aside s' rfl) (h.accounts hs)
  have hleaves := hr.leaves ho
  constructor
  · exact hy
  · intro name c hc
    obtain ⟨c', hc', -⟩ := hleaves.fewer name c hc
    exact h.named name c' hc'
  · exact hafter.letters
  · intro name c hc
    obtain ⟨hseen, c', hthere⟩ := Chronicle.among_seen hc
    rw [hthere, hafter.seen name c c' hseen hthere]
  · intro t ht
    obtain rfl := Option.some.inj ht
    refine ⟨hok.limit s' rfl, ?_, ?_, hafter.tally⟩
    · intro n hn c hc
      obtain ⟨c', hc', -⟩ := hleaves.fewer _ c hc
      exact (hf.newest n hn c' hc').trans hr.follows.stamp
    · intro name hname
      refine ⟨?_, Chronicle.among_seen_eq_none (hafter.current name hname) fs'⟩
      rcases hr.follows.current with hcur | hcur
      · obtain ⟨⟨n, hn, hnamed⟩, -⟩ := hf.current name (hcur ▸ hname)
        exact ⟨n, hn.trans hr.follows.stamp, hnamed⟩
      · rw [hcur] at hname
        contradiction

/-- An operation of a run, and the chronicle after it. -/
theorem Keeps.turn (h : x.Keeps p host g fs ls) (hturn : Turn p host x fs ls l y fs' ls')
    (hy : y.Stands p host fs' ls') (hok : Flawless l y) :
    y.Keeps p host ((g.told fs l).among fs') fs' ls' := by
  cases hturn with
  | wrote s s' e r d fs' hs hw =>
    -- the line is put into a file that has not been read
    obtain ⟨hheeds, hseen, hnames⟩ := (h.heeds s hs).wrote hw (hok.limit s' rfl) h.seen
    refine ⟨hy, fun name c hc => ?_, h.letters, fun name c hc => ?_, fun t ht => ?_⟩
    · rcases hnames name c hc with ⟨c', hc'⟩ | hnew
      · exact h.named name c' hc'
      · exact hnew
    · exact hseen name c (Chronicle.among_seen hc).1
    · obtain rfl := Option.some.inj ht
      exact hheeds
  | read s s' r d fs' ls' hs hr => exact h.read hs hr hy hok
  | unlisted s f d hs => exact absurd rfl (hok.answered f)
  | committed s s' q name r d fs' hs hq htoken hr =>
    -- the removed file is forgotten
    refine h.fewer hy (fun k c hc => hr.fewer hc) fun t ht => ?_
    obtain rfl := Option.some.inj ht
    exact ⟨s, hs, .inl hr.current, hr.stamp, hr.countsAlike⟩
  | committedFormer former s' q name r d fs' hq htoken hr =>
    exact h.fewer hy (fun k c hc => hr.fewer hc) fun t ht =>
      ⟨t, ht, .inl rfl, rfl, countsAlike_of_eq rfl⟩
  | opened s d hs =>
    -- what was read stays read, but the new spool has counted nothing yet
    refine ⟨hy, h.named, ?_, fun name c hc => ?_, fun t ht => ?_⟩
    · have hreads : (g.turned.among fs).reads = g.reads := List.append_nil _
      have hletters := h.letters
      rw [← hreads] at hletters
      exact hletters
    · exact h.seen name c (Chronicle.among_seen hc).1
    · obtain rfl := Option.some.inj ht
      refine ⟨hok.limit _ rfl, ?_, ?_, ?_⟩
      · -- its stamp is that of the newest file
        intro n hn c hc
        exact hs.stamps _ (Named.mem_of_get? hc) n
          (Spool.stamp?_fileName (hn.le.trans Spool.stampLimit_le_maxStamp))
      · intro name hname
        rw [hs.current] at hname
        contradiction
      · rw [HasCounted, hs.errors]
        exact ⟨rfl, rfl⟩
  | still l s d out hl hs hout =>
    rw [Chronicle.told_of_isStill hl]
    refine h.fewer hy (fun _ _ hc => hc) fun t ht => ?_
    obtain ⟨t₀, ht₀, hcurrent, hstamp, herrors⟩ := hs t ht
    exact ⟨t₀, ht₀, hcurrent, hstamp, countsAlike_of_eq herrors⟩

/-- Where nothing is refused, names are not too long, and stamps have at most twenty digits, nothing
that reading needs fails. -/
theorem Keeps.flawless (h : x.Keeps p host g fs ls) (hserves : p.Serves host)
    (haside : ∀ s, x.spool = some s → s.HasSetAside) (hturn : Turn p host x fs ls l y fs' ls')
    (hl : y.InLimit) : Flawless l y := by
  cases hturn with
  | wrote s s' e r d fs' hs hw =>
    refine ⟨hl, nofun, fun t ht => ?_⟩
    obtain rfl := Option.some.inj ht
    exact hw.countsAlike.hasSetAside (haside s hs)
  | read s s' r d fs' ls' hs hr =>
    have ho := h.stands.houses.ordered
    have hfits : ∀ f ∈ fs, p.Fits f.1 ∧ p.Fits (tempName f.1) := by
      intro f hf
      obtain ⟨n, hn, hname⟩ := h.named f.1 f.2 (ho.get?_of_mem hf)
      rw [hname]
      exact ⟨hserves.fits_event hn, hserves.fits_temp hn⟩
    obtain ⟨hanswered, haside'⟩ := hr.succeeds hserves ho hfits (hl s' rfl) (haside s hs)
    refine ⟨hl, fun f hf => hanswered f (Exchange.read.inj hf), fun t ht => ?_⟩
    obtain rfl := Option.some.inj ht
    exact haside'
  | unlisted s f d hs hno => exact absurd hserves.willing hno
  | committed s s' q name r d fs' hs hq htoken hr =>
    refine ⟨hl, nofun, fun t ht => ?_⟩
    obtain rfl := Option.some.inj ht
    exact hr.countsAlike.hasSetAside (haside s hs)
  | committedFormer => exact ⟨hl, nofun, haside⟩
  | opened s d hs =>
    refine ⟨hl, nofun, fun t ht => ?_⟩
    obtain rfl := Option.some.inj ht
    rw [HasSetAside, hs.errors]
    exact ⟨List.not_mem_nil, List.not_mem_nil⟩
  | still l s d out hstill hs =>
    refine ⟨hl, fun f hf => ?_, fun t ht => ?_⟩
    · rw [hf] at hstill
      exact hstill
    · obtain ⟨t₀, ht₀, -, -, herrors⟩ := hs t ht
      exact (countsAlike_of_eq herrors).hasSetAside (haside t₀ ht₀)

theorem keeps_start (hp : p.IsPlain) {d : Disk} (hd : d.Lays p host p.found) :
    (start d).Keeps p host .blank (Spool.files p.found) (Spool.lettersIn p.found) := by
  constructor
  · exact stands_start hd
  · intro name c hc
    obtain ⟨-, mode, hfile⟩ := Spool.get?_files hd.ordered hc
    obtain ⟨n, c', mode', hn, hf⟩ := hp _ (Named.mem_of_get? hfile)
    exact ⟨n, hn, (Prod.mk.inj hf).1⟩
  · exact Spool.isSetAside_nil hp.lettersIn_found
  · intro name c hc
    cases hc
  · intro s hs
    cases hs

theorem Reaches.keeps (hp : p.IsPlain) {d : Disk} (hd : d.Lays p d.host p.found)
    (h : Reaches Flawless d x g) : ∃ fs ls, x.Keeps p d.host g fs ls := by
  induction h with
  | start => exact ⟨_, _, keeps_start hp hd⟩
  | step _ hs hok ih =>
    obtain ⟨fs, ls, hkeeps⟩ := ih
    obtain ⟨fs', ls', hstands, hturn⟩ := hkeeps.stands.step hp.isUnlinked hs
    have hafter := hkeeps.turn hturn hstands hok
    rw [← hkeeps.stands.houses.files_eq, ← hstands.houses.files_eq] at hafter
    exact ⟨_, _, hafter⟩

/-- Where nothing is refused and names are not too long, every run whose stamps have at most twenty
digits is without flaw. -/
theorem Reaches.flawless (hp : p.IsPlain) (hroom : 50 ≤ p.room) {d : Disk}
    (hd : d.Shows p p.found) (h : Reaches (fun _ y => y.InLimit) d x g) :
    Reaches Flawless d x g := by
  have hserves : p.Serves d.host := ⟨hd.willing, hroom, hp.regular⟩
  -- the spool that is open has set all aside so far
  suffices hboth : Reaches Flawless d x g ∧ ∀ s, x.spool = some s → s.HasSetAside from hboth.1
  induction h with
  | start => exact ⟨.start, fun s hs => by cases hs⟩
  | step _ hs hl ih =>
    obtain ⟨hreaches, haside⟩ := ih
    obtain ⟨fs, ls, hkeeps⟩ := hreaches.keeps hp hd.lays
    obtain ⟨fs', ls', -, hturn⟩ := hkeeps.stands.step hp.isUnlinked hs
    have hok := hkeeps.flawless hserves haside hturn hl
    exact ⟨hreaches.step hs hok, hok.aside⟩

end Depot

/-! ## Once and for all -/

/-- At any time of any run, the dead letters are those of the first reads of files and no others; a file
that has been read holds what its first read left of it; the open spool has counted the damaged lines
of its own first reads; and a read gives the events of the oldest file that has any. -/
theorem damaged_lines_set_aside_once {p : Place} (hp : p.IsPlain) {d : Disk}
    (hd : d.Lays p d.host p.found) {x : Depot} {g : Chronicle}
    (hr : Depot.Reaches Depot.Flawless d x g) :
    IsSetAside g.reads x.disk.letters ∧
    (∀ name c, g.seen name = some c → Named.get? x.disk.files name = some (leftBy c)) ∧
    (∀ s, x.spool = some s → s.HasCounted g.tally) ∧
    ∀ answer y, Depot.Step x (.read answer) y → Depot.Flawless (.read answer) y →
      answer = .ok (firstBatch x.disk.files) := by
  obtain ⟨fs, ls, hkeeps⟩ := hr.keeps hp hd
  rw [hkeeps.stands.houses.letters_eq, hkeeps.stands.houses.files_eq]
  refine ⟨hkeeps.letters, hkeeps.seen, fun s hs => (hkeeps.heeds s hs).tally, ?_⟩
  intro answer y hstep hok
  obtain ⟨fs', ls', -, hturn⟩ := hkeeps.stands.step hp.isUnlinked hstep
  cases hturn with
  | read s s' r d fs' ls' hs hr =>
    have hanswered : ∀ f, answer ≠ .error f := fun f hf => hok.answered f (congrArg _ hf)
    exact (hr.accounts hkeeps.stands.houses.ordered hanswered (hok.aside s' rfl)
      (hkeeps.accounts hs)).1
  | unlisted s f => exact absurd rfl (hok.answered f)
  | still l s d out hl => exact hl.elim

namespace Depot

/-- A file with two damaged lines, a blank line and an event. Its last line has no line feed. -/
def mixedContents : Octets := Text.octets "x\n \n\x7b\"id\":\"a\"\x7d\ny"

def mixedEntries : Entries := [(fileName eventStem 1, .file mixedContents Disk.privateFile)]

theorem mixed_isSome : (fresh mixedEntries).spool.isSome = true := by decide +kernel

/-- The file is read. -/
def mixedRead : Depot := (fresh mixedEntries).fetched ((fresh mixedEntries).spool.get mixed_isSome)

theorem mixedRead_isSome : mixedRead.spool.isSome = true := by decide +kernel

/-- The file is read again. -/
def mixedReread : Depot := mixedRead.fetched (mixedRead.spool.get mixedRead_isSome)

/-- Another spool is opened. -/
def mixedReopened : Depot := mixedReread.replaced ⟨some "q", none, none⟩ []

theorem inLimit_of_all {x : Depot} (h : x.spool.all (·.highestStamp < stampLimit) = true) :
    x.InLimit := by
  intro s hs
  rw [hs] at h
  exact of_decide_eq_true h

/-- The file has been read for the first time once. -/
theorem reaches_mixedReopened :
    ∃ g, Reaches (fun _ y => y.InLimit) (.holding mixedEntries) mixedReopened g ∧
      g.reads = [(fileName eventStem 1, mixedContents)] ∧
      g.seen (fileName eventStem 1) = some mixedContents ∧ g.tally = 0 := by
  have hopened : Step (start (.holding mixedEntries)) _ (fresh mixedEntries) :=
    .opened ⟨some "q", none, none⟩ [] (by decide +kernel)
  have hread : Step (fresh mixedEntries) _ mixedRead := .read _ (Option.some_get mixed_isSome).symm
  have hreread : Step mixedRead _ mixedReread := .read _ (Option.some_get mixedRead_isSome).symm
  have hreopened : Step mixedReread _ mixedReopened :=
    .opened ⟨some "q", none, none⟩ [] (by decide +kernel)
  have hstart : Reaches (fun _ y => y.InLimit) (.holding mixedEntries) (start _) .blank := .start
  have hreaches := (((hstart.step hopened (inLimit_of_all (by decide +kernel))).step
    hread (inLimit_of_all (by decide +kernel))).step
    hreread (inLimit_of_all (by decide +kernel))).step
    hreopened (inLimit_of_all (by decide +kernel))
  exact ⟨_, hreaches, by decide +kernel, by decide +kernel, by decide +kernel⟩

end Depot

/-- The file has been read twice, and another spool has been opened. The two damaged lines are set aside
once, the event is left, and the spool that is open has not come upon any damaged line. -/
theorem damaged_lines_set_aside_once_reread :
    IsSetAside [(fileName eventStem 1, Depot.mixedContents)] Depot.mixedReopened.disk.letters ∧
    Named.get? Depot.mixedReopened.disk.files (fileName eventStem 1) =
      some (Text.octets "\x7b\"id\":\"a\"\x7d\n") ∧
    ∀ s, Depot.mixedReopened.spool = some s → s.HasCounted 0 := by
  have hplain : (Place.holding Depot.mixedEntries).IsPlain := by
    intro f hf
    exact ⟨1, Depot.mixedContents, Disk.privateFile, by decide, List.mem_singleton.mp hf⟩
  have hshows : (Disk.holding Depot.mixedEntries).Shows (.holding Depot.mixedEntries)
      Depot.mixedEntries := Disk.holding_shows (List.pairwise_singleton _ _)
  obtain ⟨g, hreaches, hreads, hseen, htally⟩ := Depot.reaches_mixedReopened
  obtain ⟨hletters, hleft, hcounted, -⟩ := damaged_lines_set_aside_once hplain hshows.lays
    (hreaches.flawless hplain (by decide) hshows)
  rw [hreads] at hletters
  rw [htally] at hcounted
  refine ⟨hletters, ?_, hcounted⟩
  rw [hleft _ _ hseen]
  decide +kernel

end AuditRelay
