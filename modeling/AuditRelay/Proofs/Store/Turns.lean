import AuditRelay.Proofs.Store.Depot
import AuditRelay.Proofs.Store.Spared

/-!
# AuditRelay.Proofs.Store.Turns — what an operation in a directory comes to

For any operation on a depot there is a `Depot.Turn`: what has become of the open spool, of the event
files, of the dead letters and of the batches that are out, on a host that may refuse any call
(`Stands.step`). It says all that an operation can do, so an invariant of a depot is shown by the cases
of a turn and opens no operation.
-/

namespace AuditRelay

open Spool (fileName eventStem isEventFile lineFeed Wrote BatchRead IsFresh)

namespace Spool

variable {p : Place} {host : Host} {s s' : Spool} {d : Disk} {fs fs' : Named Octets}
  {ls : Nat → Octets} {name : String}

/-- What removing a file makes of the spool that removes it and of the event files. The file may stay,
or be gone already. -/
structure Removed (s : Spool) (fs : Named Octets) (name : String) (s' : Spool)
    (fs' : Named Octets) : Prop where
  current : s'.current = s.current
  stamp : s'.highestStamp = s.highestStamp
  errors : s'.counters.errors = s.counters.errors ∨
    s'.counters.errors = .commitRemove :: s.counters.errors
  files : fs' = fs ∨ fs' = Named.erase name fs

theorem commit_housed (s : Spool) (h : d.Houses p host fs ls) (hn : isEventFile name = true) :
    ∃ r s' d' fs', s.commit d name = (r, s', d') ∧ d'.Houses p host fs' ls ∧
      Removed s fs name s' fs' := by
  rcases removeFile_housed s h hn with ⟨size, d', hrun, h', -⟩ | ⟨f, d', hrun, h', -⟩
  · exact ⟨_, _, d', _, hrun, h', rfl, rfl, .inl rfl, .inr rfl⟩
  · exact ⟨_, _, d', fs, hrun, h', rfl, rfl, .inr rfl, .inl rfl⟩

theorem Removed.fewer (h : Removed s fs name s' fs') {k : String} {c : Octets}
    (hc : Named.get? fs' k = some c) : Named.get? fs k = some c := by
  rcases h.files with rfl | rfl
  · exact hc
  · rw [Named.get?_erase] at hc
    split at hc
    · contradiction
    · exact hc

theorem Removed.get?_of_ne (h : Removed s fs name s' fs') {k : String} (hk : k ≠ name) :
    Named.get? fs' k = Named.get? fs k := by
  rcases h.files with rfl | rfl
  · rfl
  · rw [Named.get?_erase, if_neg hk]

/-- The current file of a spool, if it has one, is an event file with a stamp. -/
def WritesEvents (s : Spool) : Prop :=
  ∀ name, s.current = some name → ∃ n, name = fileName eventStem n

theorem WritesEvents.of_current (h : s.WritesEvents)
    (hcurrent : s'.current = s.current ∨ s'.current = none) : s'.WritesEvents := by
  intro name hname
  rcases hcurrent with hcur | hcur
  · exact h name (hcur ▸ hname)
  · rw [hcur] at hname
    contradiction

theorem Wrote.writesEvents {line : Octets} {r : Except Fault Unit}
    (h : Wrote p host s d fs line r s' fs') (hs : s.WritesEvents) : s'.WritesEvents := by
  rcases h.aims_or_still with ⟨hcurrent, -, -⟩ | ⟨n, hcurrent, -, -⟩
  · exact hs.of_current (.inl hcurrent)
  · intro name hname
    rw [hcurrent, Option.some.injEq] at hname
    exact ⟨n, hname.symm⟩

end Spool

theorem Session.of_mem_brought {r : Except Fault (Option Batch)} {q : Outstanding}
    (h : q ∈ (Session.brought r).toList) : ∃ b, r = .ok (some b) ∧ q = ⟨b, none⟩ := by
  rcases r with f | _ | b
  · cases h
  · cases h
  · exact ⟨b, rfl, List.mem_singleton.mp h⟩

/-- The operation is none that writes, reads or commits, and opens no spool. -/
def Exchange.IsStill : Exchange → Prop
  | .drop | .refresh _ | .close | .opened (.error _) => True
  | .write _ _ | .read _ | .commit _ | .opened (.ok _) => False

namespace Depot

variable {p : Place} {host : Host} {x y : Depot} {fs fs' : Named Octets} {ls ls' : Nat → Octets}
  {l : Exchange}

/-- The directory houses these event files and dead letters, and the spool and the batches are of event
files. -/
structure Stands (p : Place) (host : Host) (x : Depot) (fs : Named Octets)
    (ls : Nat → Octets) : Prop where
  houses : x.disk.Houses p host fs ls
  writes : ∀ s, x.spool = some s → s.WritesEvents
  out : ∀ q ∈ x.out, ∃ name, q.batch.token = .file name ∧ isEventFile name = true

/-- What an operation comes to: the answer, the depot, the event files and the dead letters. -/
inductive Turn (p : Place) (host : Host) (x : Depot) (fs : Named Octets) (ls : Nat → Octets) :
    Exchange → Depot → Named Octets → (Nat → Octets) → Prop where
  | wrote (s s' : Spool) (e : Event) (r : Except Fault Unit) (d : Disk) (fs' : Named Octets)
      (hs : x.spool = some s)
      (hw : Wrote p host s x.disk fs (e.written ++ [lineFeed]) r s' fs') :
      Turn p host x fs ls (.write e r) ⟨some s', d, x.out⟩ fs' ls
  | read (s s' : Spool) (r : Except Fault (Option Batch)) (d : Disk) (fs' : Named Octets)
      (ls' : Nat → Octets) (hs : x.spool = some s) (hr : BatchRead p host s fs ls r s' fs' ls') :
      Turn p host x fs ls (.read r) ⟨some s', d, (Session.brought r).toList ++ x.out⟩ fs' ls'
  /-- The directory could not be listed. -/
  | unlisted (s : Spool) (f : Fault) (d : Disk) (hs : x.spool = some s) (hno : ¬ host.IsWilling) :
      Turn p host x fs ls (.read (.error f)) ⟨some s, d, x.out⟩ fs ls
  | committed (s s' : Spool) (q : Outstanding) (name : String) (r : Except Fault Unit) (d : Disk)
      (fs' : Named Octets) (hs : x.spool = some s) (hq : q ∈ x.out)
      (htoken : q.batch.token = .file name) (hr : s.Removed fs name s' fs') :
      Turn p host x fs ls (.commit r) ⟨some s', d, x.out.erase q⟩ fs' ls
  | committedFormer (former s' : Spool) (q : Outstanding) (name : String) (r : Except Fault Unit)
      (d : Disk) (fs' : Named Octets) (hq : q ∈ x.out) (htoken : q.batch.token = .file name)
      (hr : former.Removed fs name s' fs') :
      Turn p host x fs ls (.commit r) ⟨x.spool, d, x.out.erase q⟩ fs' ls
  | opened (s : Spool) (d : Disk) (hs : s.IsFresh fs) :
      Turn p host x fs ls (.opened (.ok ())) ⟨some s, d, x.out.map (Outstanding.keep · x.spool)⟩
        fs ls
  /-- Nothing is written or removed, and the same spool is open. -/
  | still (l : Exchange) (s : Option Spool) (d : Disk) (out : List Outstanding) (hl : l.IsStill)
      (hs : ∀ t, s = some t → ∃ t₀, x.spool = some t₀ ∧
        (t.current = t₀.current ∨ t.current = none) ∧ t.highestStamp = t₀.highestStamp ∧
        t.counters.errors = t₀.counters.errors)
      (hout : ∀ q ∈ out, q ∈ x.out) : Turn p host x fs ls l ⟨s, d, out⟩ fs ls

theorem Turn.stands (ht : Turn p host x fs ls l y fs' ls') (h : x.Stands p host fs ls)
    (hy : y.disk.Houses p host fs' ls') : y.Stands p host fs' ls' := by
  cases ht with
  | wrote s s' e r d fs' hs hw =>
    refine ⟨hy, fun t ht => ?_, h.out⟩
    obtain rfl := Option.some.inj ht
    exact hw.writesEvents (h.writes s hs)
  | read s s' r d fs' ls' hs hr =>
    have hleaves := hr.leaves h.houses.ordered
    refine ⟨hy, fun t ht => ?_, fun q hq => ?_⟩
    · obtain rfl := Option.some.inj ht
      exact (h.writes s hs).of_current hr.follows.current
    · rcases List.mem_append.mp hq with hq | hq
      · -- the batch that has been read
        obtain ⟨b, rfl, rfl⟩ := Session.of_mem_brought hq
        obtain ⟨k, c', hk, hthere, -⟩ := hleaves.batch b rfl
        exact ⟨k, hk, hy.isEventFile_of_mem (Named.mem_of_get? hthere)⟩
      · exact h.out q hq
  | unlisted s f d hs =>
    refine ⟨hy, fun t ht => ?_, h.out⟩
    obtain rfl := Option.some.inj ht
    exact h.writes _ hs
  | committed s s' q name r d fs' hs hq htoken hr =>
    refine ⟨hy, fun t ht => ?_, fun q' hq' => h.out q' (List.mem_of_mem_erase hq')⟩
    obtain rfl := Option.some.inj ht
    exact (h.writes s hs).of_current (.inl hr.current)
  | committedFormer =>
    exact ⟨hy, h.writes, fun q' hq' => h.out q' (List.mem_of_mem_erase hq')⟩
  | opened s d hs =>
    refine ⟨hy, fun t ht name hname => ?_, fun q hq => ?_⟩
    · obtain rfl := Option.some.inj ht
      rw [hs.current] at hname
      contradiction
    · obtain ⟨q', hq', rfl⟩ := List.mem_map.mp hq
      exact h.out q' hq'
  | still l s d out hl hs hout =>
    refine ⟨hy, fun t ht => ?_, fun q hq => h.out q (hout q hq)⟩
    obtain ⟨t₀, ht₀, hcurrent, -, -⟩ := hs t ht
    exact (h.writes t₀ ht₀).of_current hcurrent

/-- An operation that writes nothing leaves no file that was not there. -/
theorem Turn.fewer (ht : Turn p host x fs ls l y fs' ls') (ho : Named.IsOrdered fs)
    (hl : ∀ e r, l ≠ .write e r) {name : String} {c : Octets}
    (hc : Named.get? fs' name = some c) : ∃ c₀, Named.get? fs name = some c₀ := by
  cases ht with
  | wrote s s' e r => exact absurd rfl (hl e r)
  | read s s' r d fs' ls' hs hr =>
    obtain ⟨c₀, hc₀, -⟩ := (hr.leaves ho).fewer name c hc
    exact ⟨c₀, hc₀⟩
  | committed s s' q k r d fs' hs hq htoken hr => exact ⟨c, hr.fewer hc⟩
  | committedFormer former s' q k r d fs' hq htoken hr => exact ⟨c, hr.fewer hc⟩
  | unlisted | opened | still => exact ⟨c, hc⟩

/-- An operation is a turn. -/
theorem Stands.turn (h : x.Stands p host fs ls) (hp : p.IsUnlinked) (hs : Step x l y) :
    ∃ fs' ls', y.disk.Houses p host fs' ls' ∧ Turn p host x fs ls l y fs' ls' := by
  -- the file of a batch is an event file
  have hevent : ∀ q ∈ x.out, ∀ name, q.batch.token = .file name → isEventFile name = true := by
    intro q hq name ht
    obtain ⟨k, hk, hn⟩ := h.out q hq
    obtain rfl : name = k := Token.file.inj (ht.symm.trans hk)
    exact hn
  cases hs with
  | write s hs e =>
    obtain ⟨r, s', d', fs', hrun, h', hw⟩ := Spool.write_housed s h.houses hp (h.writes s hs) e
    rw [written, hrun]
    exact ⟨fs', ls, h', .wrote s s' e r d' fs' hs hw⟩
  | read s hs =>
    obtain ⟨r, s', d', fs', ls', hrun, h', hr⟩ := Spool.nextBatch_housed s h.houses hp
    rw [fetched, hrun]
    rcases hr with ⟨f, rfl, rfl, rfl, rfl, hno⟩ | hr
    · exact ⟨_, _, h', .unlisted _ f d' hs hno⟩
    · exact ⟨fs', ls', h', .read s s' r d' fs' ls' hs hr⟩
  | commit s b name hs hq ht =>
    obtain ⟨r, s', d', fs', hrun, h', hr⟩ := Spool.commit_housed s h.houses (hevent _ hq name ht)
    rw [committed, hrun]
    exact ⟨fs', ls, h', .committed s s' _ name r d' fs' hs hq ht hr⟩
  | commitFormer former b name hq ht =>
    obtain ⟨r, s', d', fs', hrun, h', hr⟩ :=
      Spool.commit_housed former h.houses (hevent _ hq name ht)
    rw [committedFormer, hrun]
    exact ⟨fs', ls, h', .committedFormer former s' _ name r d' fs' hq ht hr⟩
  | drop q hq =>
    exact ⟨fs, ls, h.houses, .still _ _ _ _ trivial (fun t ht => ⟨t, ht, .inl rfl, rfl, rfl⟩)
      fun _ => List.mem_of_mem_erase⟩
  | refresh s hs =>
    rw [refreshed]
    rcases Spool.refreshGauges_housed s h.houses with
      ⟨total, d', hrun, h', -⟩ | ⟨f, d', hrun, h', -⟩
    · rw [hrun]
      refine ⟨fs, ls, h', .still _ _ d' _ trivial (fun t ht => ?_) fun _ hq => hq⟩
      obtain rfl := Option.some.inj ht
      exact ⟨s, hs, .inl rfl, rfl, rfl⟩
    · rw [hrun]
      exact ⟨fs, ls, h', .still _ _ d' _ trivial (fun t ht => ⟨t, hs ▸ ht, .inl rfl, rfl, rfl⟩)
        fun _ hq => hq⟩
  | close s hs =>
    refine ⟨fs, ls, h.houses, .still _ _ _ _ trivial (fun t ht => ?_) fun _ hq => hq⟩
    obtain rfl := Option.some.inj ht
    exact ⟨s, hs, .inr rfl, rfl, rfl⟩
  | opened params registry hr =>
    obtain ⟨h', hfresh⟩ := Spool.create_housed h.houses params registry hr
    rw [replaced]
    rcases hrun : Spool.create params registry x.disk with ⟨f | s, registry', d'⟩
    · rw [hrun] at h'
      exact ⟨fs, ls, h', .still _ _ d' _ trivial (fun t ht => ⟨t, ht, .inl rfl, rfl, rfl⟩)
        fun _ hq => hq⟩
    · rw [hrun] at h' hfresh
      exact ⟨fs, ls, h', .opened s d' (hfresh s rfl).1⟩

theorem Stands.step (h : x.Stands p host fs ls) (hp : p.IsUnlinked) (hs : Step x l y) :
    ∃ fs' ls', y.Stands p host fs' ls' ∧ Turn p host x fs ls l y fs' ls' := by
  obtain ⟨fs', ls', hy, hturn⟩ := h.turn hp hs
  exact ⟨fs', ls', hturn.stands h hy, hturn⟩

theorem stands_start {d : Disk} (hd : d.Lays p host p.found) :
    (start d).Stands p host (Spool.files p.found) (Spool.lettersIn p.found) := by
  constructor
  · exact ⟨p.found, hd, .refl _, rfl, rfl⟩
  · intro s hs
    cases hs
  · intro q hq
    cases hq

end Depot

end AuditRelay
