import AuditRelay.Proofs.Store.Turns

/-!
# AuditRelay.Proofs.Store.DamagedLines — what becomes of a damaged line

Spools write, read and commit in a directory, one after the other, with any number of batches out, on a
host that may refuse any call. As long as no dead letter failed to be written and no event was written
in part, a damaged line that stands in an event file is at any later time in an event file or in a dead
letter (`damaged_line_kept`).

But a file whose dead letters failed to be written is removed all the same when it holds no event
(`damaged_line_lost`), or when its batch is committed.

The invariant is `Depot.Guards`: the files of all batches that are out are safe to remove, and the
current file is none of them and has only complete lines.
-/

namespace AuditRelay

open Spool (fileName eventStem isEventFile isDamagedLine lines maxStamp IsWhole IsSafe Spares
  Contains IsRecorded)

/-! ## What is asked of a run -/

/-- What is asked of an operation and of the depot after it. The counters of the open spool show no
failed dead letter and no event that was written in part; and when a spool is opened, the files of all
batches that are out are there. -/
structure Depot.Careful (l : Exchange) (x : Depot) : Prop where
  counters : ∀ s, x.spool = some s →
    .deadLetterWriteFailed ∉ s.counters.errors ∧ .writeIo ∉ s.counters.errors
  there : l = .opened (.ok ()) → ∀ q ∈ x.out, ∀ name, q.batch.token = .file name →
    ∃ c, Named.get? x.disk.files name = some c

/-! ## The invariant -/

/-- What the open spool knows of the directory and of the batches that are out. -/
structure Spool.Tracks (s : Spool) (fs : Named Octets) (out : List Outstanding) : Prop where
  /-- No file is newer, and no file of a batch. -/
  stamps : ∀ n ≤ maxStamp, ((∃ c, Named.get? fs (fileName eventStem n) = some c) ∨
    ∃ q ∈ out, q.batch.token = .file (fileName eventStem n)) → n ≤ s.highestStamp
  current : ∀ name, s.current = some name → (∃ n ≤ s.highestStamp, name = fileName eventStem n) ∧
    IsWhole ((Named.get? fs name).getD []) ∧ ∀ q ∈ out, q.batch.token ≠ .file name

/-- What a depot keeps to. -/
structure Depot.Guards (p : Place) (host : Host) (x : Depot) (fs : Named Octets)
    (ls : Nat → Octets) : Prop where
  stands : x.Stands p host fs ls
  whole : ∀ n, IsWhole (ls n)
  tracks : ∀ s, x.spool = some s → s.Tracks fs x.out
  /-- The file of a batch may be removed. -/
  safe : ∀ q ∈ x.out, ∀ name, q.batch.token = .file name → IsSafe fs ls name

namespace Spool

variable {p : Place} {host : Host} {s s' : Spool} {d : Disk} {fs fs' : Named Octets}
  {out out' : List Outstanding} {ls : Nat → Octets} {name : String}

/-- A spool knows as much of fewer files, its current one as it was, and of the batches of files that
are there. -/
theorem Tracks.fewer (h : s.Tracks fs out) (hcurrent : s'.current = s.current ∨ s'.current = none)
    (hstamp : s.highestStamp ≤ s'.highestStamp)
    (hfs : ∀ k c', Named.get? fs' k = some c' → ∃ c, Named.get? fs k = some c)
    (hsame : ∀ k, s'.current = some k → Named.get? fs' k = Named.get? fs k)
    (hout : ∀ q ∈ out', q ∈ out ∨ ∃ k c, q.batch.token = .file k ∧ Named.get? fs' k = some c ∧
      s'.current ≠ some k) : s'.Tracks fs' out' := by
  constructor
  · intro n hn hthere
    refine le_trans (h.stamps n hn ?_) hstamp
    rcases hthere with ⟨c, hc⟩ | ⟨q, hq, ht⟩
    · exact .inl (hfs _ c hc)
    · rcases hout q hq with hq | ⟨k, c, htk, hc, -⟩
      · exact .inr ⟨q, hq, ht⟩
      · rw [htk] at ht
        exact .inl (hfs _ c (Token.file.inj ht ▸ hc))
  · intro k hk
    -- the current file is an earlier one
    have hk' : s.current = some k := by
      rcases hcurrent with hc | hc
      · rw [← hc, hk]
      · rw [hc] at hk
        contradiction
    obtain ⟨⟨n, hn, hname⟩, hwhole, hfree⟩ := h.current k hk'
    refine ⟨⟨n, hn.trans hstamp, hname⟩, by rw [hsame k hk]; exact hwhole, ?_⟩
    intro q hq ht
    rcases hout q hq with hq | ⟨k', c, htk, -, hne⟩
    · exact hfree q hq ht
    · rw [htk] at ht
      exact hne (Token.file.inj ht ▸ hk)

/-- The file that has been chosen for the next event: its lines are complete, and no batch is of it. -/
theorem Tracks.aimed (h : s.Tracks fs out) (ht : host.IsTimely) {n highest : Nat}
    (ha : Aims host s fs n highest) :
    IsWhole ((Named.get? fs (fileName eventStem n)).getD []) ∧
    (∀ q ∈ out, q.batch.token ≠ .file (fileName eventStem n)) ∧ n ≤ highest ∧
    s.highestStamp ≤ highest := by
  have hn := ha.stamp_le fun name hname => (h.current name hname).1
  rcases ha.current_or_new with ⟨hcurrent, -⟩ | ⟨hnew, -⟩
  · obtain ⟨-, hwhole, hfree⟩ := h.current _ hcurrent
    exact ⟨hwhole, hfree, hn, ha.highest_ge⟩
  · -- a new stamp is behind all files
    have hnone : Named.get? fs (fileName eventStem n) = none := by
      rw [Option.eq_none_iff_forall_ne_some]
      intro c hc
      exact absurd (h.stamps n (hnew.timely ht) (.inl ⟨c, hc⟩)) (Nat.not_le.mpr hnew.behind)
    refine ⟨?_, ?_, hn, ha.highest_ge⟩
    · rw [hnone]
      exact .inl rfl
    · intro q hq htoken
      exact absurd (h.stamps n (hnew.timely ht) (.inr ⟨q, hq, htoken⟩))
        (Nat.not_le.mpr hnew.behind)

/-- A write harms no damaged line, unless it was one in part. -/
theorem Tracks.wrote (h : s.Tracks fs out) (ht : host.IsTimely) {line : Octets}
    {r : Except Fault Unit} (hw : Wrote p host s d fs (line ++ [lineFeed]) r s' fs')
    (hok : .writeIo ∉ s'.counters.errors) (ls : Nat → Octets) :
    s'.Tracks fs' out ∧ Spares fs ls fs' ls ∧
    ∀ q ∈ out, ∀ k, q.batch.token = .file k → Named.get? fs' k = Named.get? fs k := by
  rcases hw.aims_or_still with ⟨hcurrent, hstamp, rfl⟩ | ⟨n, hcurrent, haims, hfs⟩
  · refine ⟨?_, .refl _ _, fun _ _ _ _ => rfl⟩
    exact h.fewer (.inl hcurrent) hstamp.ge (fun k c hc => ⟨c, hc⟩) (fun _ _ => rfl)
      fun q hq => .inl hq
  · obtain ⟨hwhole, hfree, hn, hle⟩ := h.aimed ht haims
    -- a part of a line would have been counted
    have hcases : fs' = fs ∨ fs' = Named.insert (fileName eventStem n)
        ((Named.get? fs (fileName eventStem n)).getD [] ++ (line ++ [lineFeed])) fs := by
      rcases hfs with hfs | hfs | ⟨hio, -⟩
      · exact .inl hfs
      · exact .inr hfs
      · exact absurd hio hok
    rcases hcases with rfl | rfl
    · refine ⟨⟨fun m hm hthere => (h.stamps m hm hthere).trans hle, ?_⟩, .refl _ _,
        fun _ _ _ _ => rfl⟩
      intro k hk
      rw [hcurrent, Option.some.injEq] at hk
      subst hk
      exact ⟨⟨n, hn, rfl⟩, hwhole, hfree⟩
    · refine ⟨⟨?_, ?_⟩, spares_append hwhole ls _, ?_⟩
      · rintro m hm (⟨c, hc⟩ | hbatch)
        · rw [Named.get?_insert] at hc
          by_cases hmn : fileName eventStem m = fileName eventStem n
          · exact (stamp_injective hmn).le.trans hn
          · rw [if_neg hmn] at hc
            exact (h.stamps m hm (.inl ⟨c, hc⟩)).trans hle
        · exact (h.stamps m hm (.inr hbatch)).trans hle
      · intro k hk
        rw [hcurrent, Option.some.injEq] at hk
        subst hk
        refine ⟨⟨n, hn, rfl⟩, ?_, hfree⟩
        rw [Named.get?_insert_self, Option.getD_some]
        exact IsWhole.append_line _ _
      · intro q hq k hk
        rw [Named.get?_insert, if_neg]
        rintro rfl
        exact hfree q hq hk

/-- Opening a spool: the files of all batches are there, so none is newer than the newest. -/
theorem IsFresh.tracks (h : s.IsFresh fs)
    (hout : ∀ q ∈ out, ∀ name, q.batch.token = .file name → ∃ c, Named.get? fs name = some c) :
    s.Tracks fs out := by
  constructor
  · intro n hn hthere
    have hfile : ∃ c, Named.get? fs (fileName eventStem n) = some c := by
      rcases hthere with hfile | ⟨q, hq, ht⟩
      · exact hfile
      · exact hout q hq _ ht
    obtain ⟨c, hc⟩ := hfile
    exact h.stamps _ (Named.mem_of_get? hc) n (stamp?_fileName hn)
  · intro k hk
    rw [h.current] at hk
    contradiction

end Spool

/-! ## Operations -/

namespace Depot

variable {p : Place} {host : Host} {x y : Depot} {fs fs' : Named Octets} {ls ls' : Nat → Octets}
  {l : Exchange}

/-- Fewer files and fewer batches are guarded too, if no current file is among those that are gone. -/
theorem Guards.fewer (h : x.Guards p host fs ls) (hy : y.Stands p host fs' ls)
    (hspares : Spares fs ls fs' ls)
    (hfs : ∀ k c, Named.get? fs' k = some c → Named.get? fs k = some c)
    (hout : ∀ q ∈ y.out, q ∈ x.out)
    (hs : ∀ t, y.spool = some t → ∃ t₀, x.spool = some t₀ ∧
      (t.current = t₀.current ∨ t.current = none) ∧ t.highestStamp = t₀.highestStamp ∧
      ∀ k, t.current = some k → Named.get? fs' k = Named.get? fs k) : y.Guards p host fs' ls := by
  constructor
  · exact hy
  · exact h.whole
  · intro t ht
    obtain ⟨t₀, ht₀, hcurrent, hstamp, hsame⟩ := hs t ht
    exact (h.tracks t₀ ht₀).fewer hcurrent hstamp.ge (fun k c hc => ⟨c, hfs k c hc⟩) hsame
      fun q hq => .inl (hout q hq)
  · intro q hq k hk
    exact hspares.isSafe (h.safe q (hout q hq) k hk) fun c hc => ⟨c, hfs k c hc, .inl rfl⟩

/-- A batch is committed, by the open spool or by another one: its file was safe. -/
theorem Guards.removed (h : x.Guards p host fs ls) {t t' : Spool} {q : Outstanding} {name : String}
    (hq : q ∈ x.out) (htoken : q.batch.token = .file name) (hr : t.Removed fs name t' fs')
    (hy : y.Stands p host fs' ls) (hout : y.out = x.out.erase q)
    (hs : ∀ s', y.spool = some s' → ∃ s, x.spool = some s ∧ s'.current = s.current ∧
      s'.highestStamp = s.highestStamp) : y.Guards p host fs' ls ∧ Spares fs ls fs' ls := by
  have hspares : Spares fs ls fs' ls := by
    rcases hr.files with rfl | rfl
    · exact .refl _ _
    · exact Spool.spares_erase (h.safe q hq name htoken)
  refine ⟨h.fewer hy hspares (fun k c hc => hr.fewer hc) (fun q' hq' => ?_) fun s' hs' => ?_,
    hspares⟩
  · rw [hout] at hq'
    exact List.mem_of_mem_erase hq'
  · obtain ⟨s, hx, hcurrent, hstamp⟩ := hs s' hs'
    refine ⟨s, hx, .inl hcurrent, hstamp, fun k hk => hr.get?_of_ne ?_⟩
    -- the current file is no file of a batch
    rintro rfl
    rw [hcurrent] at hk
    exact ((h.tracks s hx).current k hk).2.2 q hq htoken

theorem Guards.read (h : x.Guards p host fs ls) {s s' : Spool} {r : Except Fault (Option Batch)}
    {d : Disk} (hs : x.spool = some s) (hr : Spool.BatchRead p host s fs ls r s' fs' ls')
    (hy : Stands p host ⟨some s', d, (Session.brought r).toList ++ x.out⟩ fs' ls')
    (hok : .deadLetterWriteFailed ∉ s'.counters.errors) :
    Guards p host ⟨some s', d, (Session.brought r).toList ++ x.out⟩ fs' ls' ∧
    Spares fs ls fs' ls' := by
  have ho := h.stands.houses.ordered
  obtain ⟨hspares, hwhole, hbatch⟩ := hr.spares ho h.whole hok
  have hleaves := hr.leaves ho
  refine ⟨⟨hy, hwhole, fun t ht => ?_, fun q hq k hk => ?_⟩, hspares⟩
  · obtain rfl := Option.some.inj ht
    refine (h.tracks s hs).fewer hr.follows.current hr.follows.stamp (fun k c hc => ?_)
      hleaves.current fun q hq => ?_
    · obtain ⟨c', hc', -⟩ := hleaves.fewer k c hc
      exact ⟨c', hc'⟩
    · rcases List.mem_append.mp hq with hq | hq
      · -- the batch that has been read
        obtain ⟨b, rfl, rfl⟩ := Session.of_mem_brought hq
        obtain ⟨k, c', hk, hthere, hne⟩ := hleaves.batch b rfl
        exact .inr ⟨k, c', hk, hthere, hne⟩
      · exact .inl hq
  · rcases List.mem_append.mp hq with hq | hq
    · obtain ⟨b, rfl, rfl⟩ := Session.of_mem_brought hq
      exact hbatch b k rfl hk
    · exact hspares.isSafe (h.safe q hq k hk) fun c hc => hleaves.fewer k c hc

/-- An operation on a guarded depot loses no damaged line and leaves a guarded one. -/
theorem Guards.turn (h : x.Guards p host fs ls) (ht : host.IsTimely)
    (hturn : Turn p host x fs ls l y fs' ls') (hy : y.Stands p host fs' ls')
    (hok : Careful l y) : y.Guards p host fs' ls' ∧ Spares fs ls fs' ls' := by
  cases hturn with
  | wrote s s' e r d fs' hs hw =>
    -- the line is put behind complete lines, in a file that no batch is of
    obtain ⟨htracks, hspares, hsame⟩ := (h.tracks s hs).wrote ht hw (hok.counters s' rfl).2 ls
    refine ⟨⟨hy, h.whole, fun t ht => ?_, fun q hq k hk => ?_⟩, hspares⟩
    · obtain rfl := Option.some.inj ht
      exact htracks
    · refine hspares.isSafe (h.safe q hq k hk) fun c hc => ⟨c, ?_, .inl rfl⟩
      rw [← hsame q hq k hk, hc]
  | read s s' r d fs' ls' hs hr => exact h.read hs hr hy (hok.counters s' rfl).1
  | unlisted s f d hs =>
    refine ⟨h.fewer hy (.refl _ _) (fun _ _ hc => hc) (fun _ hq => hq) fun t ht => ?_, .refl _ _⟩
    obtain rfl := Option.some.inj ht
    exact ⟨_, hs, .inl rfl, rfl, fun _ _ => rfl⟩
  | committed s s' q name r d fs' hs hq htoken hr =>
    refine h.removed hq htoken hr hy rfl fun t ht => ?_
    obtain rfl := Option.some.inj ht
    exact ⟨s, hs, hr.current, hr.stamp⟩
  | committedFormer former s' q name r d fs' hq htoken hr =>
    exact h.removed hq htoken hr hy rfl fun t ht => ⟨t, ht, rfl, rfl⟩
  | opened s d hs =>
    -- the stamp of the new spool is that of the newest file, and no file of a batch is newer
    have hthere := hok.there rfl
    rw [hy.houses.files_eq] at hthere
    refine ⟨⟨hy, h.whole, fun t ht => ?_, fun q hq => ?_⟩, .refl _ _⟩
    · obtain rfl := Option.some.inj ht
      exact hs.tracks hthere
    · obtain ⟨q', hq', rfl⟩ := List.mem_map.mp hq
      exact h.safe q' hq'
  | still l s d out hl hs hout =>
    refine ⟨h.fewer hy (.refl _ _) (fun _ _ hc => hc) hout fun t ht => ?_, .refl _ _⟩
    obtain ⟨t₀, ht₀, hcurrent, hstamp, -⟩ := hs t ht
    exact ⟨t₀, ht₀, hcurrent, hstamp, fun _ _ => rfl⟩

theorem Guards.runs (h : x.Guards p host fs ls) (hp : p.IsUnlinked) (ht : host.IsTimely)
    (hr : Runs Careful x y) : ∃ fs' ls', y.Guards p host fs' ls' ∧ Spares fs ls fs' ls' := by
  induction hr with
  | refl => exact ⟨fs, ls, h, .refl _ _⟩
  | tail _ hs ih =>
    obtain ⟨fs₁, ls₁, h₁, hspares₁⟩ := ih
    obtain ⟨l, hstep, hok⟩ := hs
    obtain ⟨fs₂, ls₂, hstands, hturn⟩ := h₁.stands.step hp hstep
    obtain ⟨h₂, hspares₂⟩ := h₁.turn ht hturn hstands hok
    exact ⟨fs₂, ls₂, h₂, hspares₁.trans hspares₂⟩

theorem guards_start {d : Disk} (hd : d.Lays p host p.found)
    (hw : ∀ n, IsWhole (Spool.lettersIn p.found n)) :
    (start d).Guards p host (Spool.files p.found) (Spool.lettersIn p.found) := by
  constructor
  · exact stands_start hd
  · exact hw
  · intro s hs
    cases hs
  · intro q hq
    cases hq

end Depot

/-! ## No damaged line is lost -/

/-- Whatever else fails, and whatever was found in the directory at first: a damaged line that stands
in an event file at some time stands in an event file at any later time, or a dead letter shows it. -/
theorem damaged_line_kept {p : Place} (hp : p.IsUnlinked) {d : Disk} (ht : d.host.IsTimely)
    (hd : d.Lays p d.host p.found) (hw : ∀ n, IsWhole (Spool.lettersIn p.found n)) {x y : Depot}
    (hx : Depot.Runs Depot.Careful (.start d) x) (hy : Depot.Runs Depot.Careful x y)
    {line : Octets} (hline : isDamagedLine line = true) (hc : Contains x.disk.files line) :
    Contains y.disk.files line ∨ IsRecorded y.disk.letters line := by
  obtain ⟨fs, ls, hguards, -⟩ := (Depot.guards_start hd hw).runs hp ht hx
  obtain ⟨fs', ls', hguards', hspares⟩ := hguards.runs hp ht hy
  rw [hguards.stands.houses.files_eq] at hc
  rw [hguards'.stands.houses.files_eq, hguards'.stands.houses.letters_eq]
  exact hspares.contained line hline hc

namespace Depot

/-- A file of one damaged line and one event. -/
def tornEntries : Entries :=
  [(fileName eventStem 1, .file (Text.octets "x\n\x7b\"id\":\"a\"\x7d\n") Disk.privateFile)]

theorem torn_isSome : (fresh tornEntries).spool.isSome = true := by decide +kernel

/-- The file is read. -/
def tornRead : Depot := (fresh tornEntries).fetched ((fresh tornEntries).spool.get torn_isSome)

/-- What the counters show can be computed. -/
theorem counters_of_all {x : Depot} (h : x.spool.all (fun s =>
    !s.counters.errors.elem .deadLetterWriteFailed && !s.counters.errors.elem .writeIo) = true) :
    ∀ s, x.spool = some s →
      .deadLetterWriteFailed ∉ s.counters.errors ∧ .writeIo ∉ s.counters.errors := by
  intro s hs
  rw [hs] at h
  simpa using h

theorem runs_torn : Runs Careful (start (.holding tornEntries)) (fresh tornEntries) := by
  have hopened : Step (start (.holding tornEntries)) _ (fresh tornEntries) :=
    .opened ⟨some "q", none, none⟩ [] (by decide +kernel)
  refine .single ⟨_, hopened, counters_of_all (by decide +kernel), fun _ q hq => ?_⟩
  -- no batch is out
  exact absurd hq List.not_mem_nil

theorem runs_tornRead : Runs Careful (fresh tornEntries) tornRead := by
  have hread : Step (fresh tornEntries) _ tornRead := .read _ (Option.some_get torn_isSome).symm
  refine .single ⟨_, hread, counters_of_all (by decide +kernel), ?_⟩
  intro hl
  cases hl

end Depot

/-- When its file is read, a damaged line is in it no more, and a dead letter shows it. -/
theorem damaged_line_kept_recorded :
    isDamagedLine (Text.octets "x") = true ∧
    Contains (Depot.fresh Depot.tornEntries).disk.files (Text.octets "x") ∧
    ¬ Contains Depot.tornRead.disk.files (Text.octets "x") ∧
    IsRecorded Depot.tornRead.disk.letters (Text.octets "x") := by
  have hline : isDamagedLine (Text.octets "x") = true := by decide +kernel
  have hbefore : Contains (Depot.fresh Depot.tornEntries).disk.files (Text.octets "x") := by
    refine ⟨fileName eventStem 1, Text.octets "x\n\x7b\"id\":\"a\"\x7d\n", ?_, ?_⟩
    · decide +kernel
    · decide +kernel
  have hafter : ¬ Contains Depot.tornRead.disk.files (Text.octets "x") := by
    rintro ⟨name, c, hg, hl⟩
    have hfiles : Depot.tornRead.disk.files =
        [(fileName eventStem 1, Text.octets "\x7b\"id\":\"a\"\x7d\n")] := by decide +kernel
    rw [hfiles] at hg
    obtain ⟨-, rfl⟩ := Prod.mk.inj (List.mem_singleton.mp (Named.mem_of_get? hg))
    exact absurd hl (by decide +kernel)
  have hunlinked : (Place.holding Depot.tornEntries).IsUnlinked := by
    refine Place.isUnlinked_holding fun f hf target => ?_
    rw [List.mem_singleton.mp hf]
    exact fun h => by cases h
  have htimely : (Disk.holding Depot.tornEntries).host.IsTimely := fun _ => Nat.zero_le _
  have hwhole : ∀ n, IsWhole (Spool.lettersIn (Place.holding Depot.tornEntries).found n) := by
    intro n
    refine .inl (Spool.lettersIn_eq_nil fun c mode hf => ?_)
    have hname := congrArg Prod.fst (List.mem_singleton.mp hf)
    exact Spool.ne_deadLetters (Spool.isEventFile_fileName 1) n hname.symm
  refine ⟨hline, hbefore, hafter, ?_⟩
  exact (damaged_line_kept hunlinked htimely
    (Disk.holding_shows (List.pairwise_singleton _ _)).lays hwhole Depot.runs_torn
    Depot.runs_tornRead hline hbefore).resolve_left hafter

/-! ## A damaged line that is lost -/

namespace Depot

/-- A file of one damaged line, and a directory under the name that its dead letters get. -/
def blockedEntries : Entries :=
  [(fileName eventStem 1, .file (Text.octets "x\n") Disk.privateFile),
    (fileName Spool.deadLetterStem 2, .directory [] Disk.privateDirectory)]

theorem blocked_isSome : (fresh blockedEntries).spool.isSome = true := by decide +kernel

/-- The file is read. -/
def blockedRead : Depot :=
  (fresh blockedEntries).fetched ((fresh blockedEntries).spool.get blocked_isSome)

theorem blockedRead_entries : blockedRead.disk.entries =
    .ok [(fileName Spool.deadLetterStem 2, .directory [] Disk.privateDirectory)] := by rfl

end Depot

/-- The dead letter of a damaged line cannot be written, but reading answers that there is nothing and
removes the file of the line. -/
theorem damaged_line_lost :
    isDamagedLine (Text.octets "x") = true ∧
    (Place.holding Depot.blockedEntries).IsUnlinked ∧
    (Disk.holding Depot.blockedEntries).Shows (.holding Depot.blockedEntries)
      Depot.blockedEntries ∧
    Depot.Runs (fun _ _ => True) (.start (.holding Depot.blockedEntries))
      (.fresh Depot.blockedEntries) ∧
    Depot.Step (.fresh Depot.blockedEntries) (.read (.ok none)) Depot.blockedRead ∧
    Contains (Depot.fresh Depot.blockedEntries).disk.files (Text.octets "x") ∧
    ¬ (Contains Depot.blockedRead.disk.files (Text.octets "x") ∨
      IsRecorded Depot.blockedRead.disk.letters (Text.octets "x")) := by
  have hunlinked : (Place.holding Depot.blockedEntries).IsUnlinked := by
    refine Place.isUnlinked_holding fun f hf target => ?_
    rcases List.mem_cons.mp hf with rfl | hf
    · exact fun h => by cases h
    · rw [List.mem_singleton.mp hf]
      exact fun h => by cases h
  have hopened : Depot.Step (.start (.holding Depot.blockedEntries)) _
      (.fresh Depot.blockedEntries) :=
    .opened ⟨some "q", none, none⟩ [] (by decide +kernel)
  have hread : Depot.Step (.fresh Depot.blockedEntries) (.read (.ok none)) Depot.blockedRead := by
    have hstep : Depot.Step (.fresh Depot.blockedEntries) _ Depot.blockedRead :=
      .read _ (Option.some_get Depot.blocked_isSome).symm
    have hanswer : (((Depot.fresh Depot.blockedEntries).spool.get Depot.blocked_isSome).nextBatch
        (Depot.fresh Depot.blockedEntries).disk).1 = .ok none := by decide +kernel
    rw [hanswer] at hstep
    exact hstep
  have hbefore : Contains (Depot.fresh Depot.blockedEntries).disk.files (Text.octets "x") := by
    refine ⟨fileName eventStem 1, Text.octets "x\n", ?_, ?_⟩
    · decide +kernel
    · decide +kernel
  have hafter : ¬ Contains Depot.blockedRead.disk.files (Text.octets "x") := by
    rintro ⟨name, c, hg, -⟩
    have hfiles : Depot.blockedRead.disk.files = [] := by decide +kernel
    rw [hfiles] at hg
    cases hg
  have hnowhere : ¬ IsRecorded Depot.blockedRead.disk.letters (Text.octets "x") := by
    rintro ⟨n, before, after, l, hl, -⟩
    -- only the directory is left
    have hnone : Depot.blockedRead.disk.letters n = [] := by
      rw [Disk.letters, Depot.blockedRead_entries]
      refine Spool.lettersIn_eq_nil fun c mode hf => ?_
      have hnode := congrArg Prod.snd (List.mem_singleton.mp hf)
      cases hnode
    rw [hnone, Spool.DeadLetter.written] at hl
    simp at hl
  exact ⟨by decide +kernel, hunlinked,
    Disk.holding_shows (List.pairwise_pair.mpr (by decide +kernel)), .single ⟨_, hopened, trivial⟩,
    hread, hbefore, not_or.mpr ⟨hafter, hnowhere⟩⟩

end AuditRelay
