import AuditRelay.Proofs.Store.Directory

/-!
# AuditRelay.Proofs.Store.Refusals — calls that may be refused

`Disk.Lays` says that a directory is there with given entries, on a given host that may refuse any
call. It is `Disk.Shows` of the same disk on a host that refuses none (`Disk.eager`), so where a name
leads is known already.

For every call there are two outcomes: it does what it would do on a willing host, or it fails. If it
fails the entries are the same, except that a refused write may have put in the first of its octets
(`Lays.fill`). A call that fails is refused, or has a reason of its own.
-/

namespace AuditRelay

/-- The host refuses no call. -/
def Host.IsWilling (host : Host) : Prop := ∀ n, host.refuse n = none

namespace Disk

/-- The disk on a host that refuses no call. -/
def eager (d : Disk) : Disk := { d with host := { d.host with refuse := fun _ => none } }

/-- The directory is there with these entries, whatever its host refuses. -/
structure Lays (p : Place) (host : Host) (d : Disk) (es : Entries) : Prop where
  host : d.host = host
  shows : d.eager.Shows p es

theorem Shows.lays {p : Place} {d : Disk} {es : Entries} (h : d.Shows p es) :
    d.Lays p d.host es :=
  ⟨rfl, h.directory, h.room, h.reached, h.ordered, fun _ => rfl⟩

theorem eager_withEntries (d : Disk) (es : Entries) :
    (d.withEntries es).eager = d.eager.withEntries es := by
  have hdirectory : d.eager.directory = d.directory := rfl
  have hroot : d.eager.root = d.root := rfl
  simp only [withEntries, hdirectory, hroot]
  split
  · rfl
  · split <;> rfl

namespace Lays

variable {p : Place} {host : Host} {d : Disk} {es : Entries} {name : String} {c : Octets}
  {mode : Nat}

theorem ordered (h : d.Lays p host es) : Named.IsOrdered es := h.shows.ordered

theorem entries (h : d.Lays p host es) : d.entries = .ok es := h.shows.entries

theorem counted (h : d.Lays p host es) (calls readings : Nat) :
    Lays p host { d with calls, readings } es :=
  ⟨h.host, h.shows.counted calls readings⟩

/-- A call is refused, and then the host is not willing, or it acts. -/
theorem perform {α : Type} (h : d.Lays p host es) (act : Disk → Except SystemFault α × Disk) :
    (∃ f, d.perform act = (.error f, { d with calls := d.calls + 1 }) ∧ ¬ host.IsWilling) ∨
    d.perform act = act { d with calls := d.calls + 1 } := by
  cases hr : d.host.refuse d.calls with
  | none => exact .inr (by rw [Disk.perform, Disk.call, hr])
  | some r =>
    refine .inl ⟨r.cause, by rw [Disk.perform, Disk.call, hr], ?_⟩
    intro hw
    rw [h.host, hw] at hr
    contradiction

/-- A name of the directory leads to its entry, unless it is too long. -/
theorem spot (h : d.Lays p host es) (hn : IsEntryName name) (aim : Volume.Aim)
    (hl : aim = .entry ∨ IsUnlinked es name) :
    (p.Fits name → d.spot aim name =
      .ok ⟨p.reached.names ++ [name], Named.get? es name, p.reached.links⟩) ∧
    (¬ p.Fits name → d.spot aim name = .error .nameTooLong) :=
  h.shows.spot hn aim hl

theorem putFile (h : d.Lays p host es) (name : String) (c : Octets) (mode : Nat) :
    (d.putFile (p.reached.names ++ [name]) c mode).Lays p host
      (Named.insert name (.file c mode) es) :=
  ⟨h.host, h.shows.putFile name c mode⟩

theorem withEntries (h : d.Lays p host es) {es' : Entries} (ho : Named.IsOrdered es') :
    (d.withEntries es').Lays p host es' := by
  constructor
  · rw [← h.host, Disk.withEntries]
    split
    · rfl
    · split <;> rfl
  · rw [eager_withEntries]
    exact h.shows.withEntries ho

/-! ## Looking -/

theorem list (h : d.Lays p host es) :
    (∃ d', d.list = (.ok es, d') ∧ d'.Lays p host es) ∨
    (∃ f d', d.list = (.error f, d') ∧ d'.Lays p host es ∧ ¬ host.IsWilling) := by
  have h' := h.counted (d.calls + 1) d.readings
  rcases h.perform fun d => (d.entries, d) with ⟨f, hf, hno⟩ | ha
  · exact .inr ⟨f, _, hf, h', hno⟩
  · refine .inl ⟨_, ?_, h'⟩
    rw [Disk.list, ha, h'.entries]

/-- Asking for a size changes nothing. -/
theorem size (h : d.Lays p host es) (name : String) : (d.size name).2.Lays p host es := by
  have h' := h.counted (d.calls + 1) d.readings
  rw [Disk.size]
  rcases h.perform _ with ⟨f, hf, -⟩ | ha
  · rw [hf]
    exact h'
  · rw [ha]
    split
    · exact h'
    · split <;> exact h'

/-- Nothing but a refusal, or a name that is too long, keeps back the size of what can be written. -/
theorem size_cases (h : d.Lays p host es) (hn : IsEntryName name) (hw : IsWritable es name) :
    (∃ c mode, Named.get? es name = some (.file c mode) ∧ (d.size name).1 = .ok c.length) ∨
    (Named.get? es name = none ∧ (d.size name).1 = .error .notFound) ∨
    (∃ f, (d.size name).1 = .error f ∧ ¬ (host.IsWilling ∧ p.Fits name)) := by
  have h' := h.counted (d.calls + 1) d.readings
  have hspot := h'.spot hn .thing (.inr hw.isUnlinked)
  rw [Disk.size]
  rcases h.perform _ with ⟨f, hf, hno⟩ | ha
  · refine .inr (.inr ⟨f, ?_, fun hwilling => hno hwilling.1⟩)
    rw [hf]
  · rw [ha]
    by_cases hfit : p.Fits name
    · rcases hw with hg | ⟨c, mode, hg⟩
      · refine .inr (.inl ⟨hg, ?_⟩)
        simp only [hspot.1 hfit, hg]
      · refine .inl ⟨c, mode, hg, ?_⟩
        simp only [hspot.1 hfit, hg]
    · refine .inr (.inr ⟨.nameTooLong, ?_, fun hwilling => hfit hwilling.2⟩)
      simp only [hspot.2 hfit]

theorem openForReading (h : d.Lays p host es) (hn : IsEntryName name)
    (hg : Named.get? es name = some (.file c mode)) :
    (∃ d', d.openForReading name = (.ok (p.handle name), d') ∧ d'.Lays p host es) ∨
    (∃ f d', d.openForReading name = (.error f, d') ∧ d'.Lays p host es ∧
      ¬ (host.IsWilling ∧ p.Fits name)) := by
  have h' := h.counted (d.calls + 1) d.readings
  have hl : IsUnlinked es name := IsWritable.isUnlinked (.inr ⟨c, mode, hg⟩)
  have hspot := h'.spot hn .thing (.inr hl)
  rw [Disk.openForReading]
  rcases h.perform _ with ⟨f, hf, hno⟩ | ha
  · exact .inr ⟨f, _, hf, h', fun hw => hno hw.1⟩
  · rw [ha]
    by_cases hfit : p.Fits name
    · refine .inl ⟨_, ?_, h'⟩
      simp only [hspot.1 hfit, hg]
      rfl
    · refine .inr ⟨.nameTooLong, _, ?_, h', fun hw => hfit hw.2⟩
      simp only [hspot.2 hfit]

theorem readAll (h : d.Lays p host es) (hg : Named.get? es name = some (.file c mode)) :
    (∃ d', d.readAll (p.handle name) = (.ok c, d') ∧ d'.Lays p host es) ∨
    (∃ f d', d.readAll (p.handle name) = (.error f, d') ∧ d'.Lays p host es ∧
      ¬ host.IsWilling) := by
  have h' := h.counted (d.calls + 1) d.readings
  have hfind := h'.shows.find name
  rw [hg] at hfind
  rw [Disk.readAll]
  rcases h.perform _ with ⟨f, hf, hno⟩ | ha
  · exact .inr ⟨f, _, hf, h', hno⟩
  · refine .inl ⟨_, ?_, h'⟩
    rw [ha, Place.handle]
    have hfind' : Volume.find? d.root (p.reached.names ++ [name]) = some (.file c mode) := hfind
    simp only [hfind']

/-! ## Writing -/

/-- An opened file is no link and no directory. -/
theorem openForWriting (h : d.Lays p host es) (hn : IsEntryName name) (hl : IsUnlinked es name)
    (truncate : Bool) :
    (∃ d' mode, d.openForWriting name truncate = (.ok (p.handle name), d') ∧
      d'.Lays p host (Named.insert name
        (.file (if truncate then [] else contentsOf es name) mode) es) ∧
      p.Fits name ∧ IsWritable es name) ∨
    (∃ handle d', d.openForWriting name truncate = (.ok handle, d') ∧ d'.Lays p host es ∧
      (handle = .sink ∨ handle = .full) ∧ ¬ IsWritable es name) ∨
    (∃ f d', d.openForWriting name truncate = (.error f, d') ∧ d'.Lays p host es ∧
      ¬ (host.IsWilling ∧ p.Fits name ∧ IsWritable es name)) := by
  have h' := h.counted (d.calls + 1) d.readings
  have hspot := h'.spot hn .file (.inr hl)
  rw [Disk.openForWriting]
  rcases h.perform _ with ⟨f, hf, hno⟩ | ha
  · exact .inr (.inr ⟨f, _, hf, h', fun hw => hno hw.1⟩)
  · rw [ha]
    by_cases hfit : p.Fits name
    · have hs := hspot.1 hfit
      cases hg : Named.get? es name with
      | none =>
        -- a new file
        refine .inl ⟨_, privateFile, ?_, h'.putFile name _ privateFile, hfit, .inl hg⟩
        simp only [hs, hg, contentsOf, ite_self]
        rfl
      | some node =>
        cases node with
        | file c mode =>
          refine .inl ?_
          cases truncate with
          | true =>
            refine ⟨_, mode, ?_, h'.putFile name _ mode, hfit, .inr ⟨c, mode, hg⟩⟩
            simp only [hs, hg, if_true]
            rfl
          | false =>
            refine ⟨{ d with calls := d.calls + 1 }, mode, ?_, ?_, hfit, .inr ⟨c, mode, hg⟩⟩
            · simp only [hs, hg, Bool.false_eq_true, if_false]
              rfl
            · rw [if_neg Bool.false_ne_true, insert_contentsOf h.ordered hg]
              exact h'
        | link target => exact absurd hg (hl target)
        | directory sub mode =>
          refine .inr (.inr ⟨.isADirectory, _, ?_, h', fun hw =>
            not_isWritable hg (fun c m => Node.noConfusion) hw.2.2⟩)
          simp only [hs, hg]
        | sink =>
          refine .inr (.inl ⟨.sink, _, ?_, h', .inl rfl, not_isWritable hg fun c m => Node.noConfusion⟩)
          simp only [hs, hg]
        | full =>
          refine .inr (.inl ⟨.full, _, ?_, h', .inr rfl, not_isWritable hg fun c m => Node.noConfusion⟩)
          simp only [hs, hg]
    · refine .inr (.inr ⟨.nameTooLong, _, ?_, h', fun hw => hfit hw.2.1⟩)
      simp only [hspot.2 hfit]

/-- A refused write may have put in the first octets. -/
theorem append (h : d.Lays p host es) (hg : Named.get? es name = some (.file c mode))
    (bs : Octets) :
    (∃ d', d.append (p.handle name) bs = (.ok (), d') ∧
      d'.Lays p host (Named.insert name (.file (c ++ bs) mode) es)) ∨
    (∃ f d' taken, d.append (p.handle name) bs = (.error f, d') ∧
      d'.Lays p host (Named.insert name (.file (c ++ bs.take taken) mode) es) ∧
      ¬ host.IsWilling) := by
  have h' := h.counted (d.calls + 1) d.readings
  have hfind : Volume.find? d.root (p.reached.names ++ [name]) = some (.file c mode) := by
    rw [← hg]
    exact h.shows.find name
  cases hr : d.host.refuse d.calls with
  | none =>
    refine .inl ⟨_, ?_, h'.putFile name (c ++ bs) mode⟩
    rw [Disk.append, Disk.call, hr]
    simp only [Place.handle, extend, hfind]
  | some r =>
    refine .inr ⟨r.cause, _, r.taken, ?_, h'.putFile name (c ++ bs.take r.taken) mode, ?_⟩
    · rw [Disk.append, Disk.call, hr]
      simp only [Place.handle, extend, hfind]
    · intro hw
      rw [h.host, hw] at hr
      contradiction

/-- Nothing is kept of what is written to a device. -/
theorem append_device (h : d.Lays p host es) {handle : Handle}
    (hd : handle = .sink ∨ handle = .full) (bs : Octets) :
    (d.append handle bs).2.Lays p host es := by
  have h' := h.counted (d.calls + 1) d.readings
  cases hr : d.host.refuse d.calls with
  | none =>
    rw [Disk.append, Disk.call, hr]
    rcases hd with rfl | rfl
    · exact h'
    · simp only
      split <;> exact h'
  | some r =>
    rw [Disk.append, Disk.call, hr]
    rcases hd with rfl | rfl <;> exact h'

theorem sync (h : d.Lays p host es) (name : String) :
    (∃ d', d.sync (p.handle name) = (.ok (), d') ∧ d'.Lays p host es) ∨
    (∃ f d', d.sync (p.handle name) = (.error f, d') ∧ d'.Lays p host es ∧
      ¬ host.IsWilling) := by
  have h' := h.counted (d.calls + 1) d.readings
  rw [Disk.sync]
  rcases h.perform _ with ⟨f, hf, hno⟩ | ha
  · exact .inr ⟨f, _, hf, h', hno⟩
  · exact .inl ⟨_, ha, h'⟩

/-- A device cannot be forced out. -/
theorem sync_device (h : d.Lays p host es) {handle : Handle}
    (hd : handle = .sink ∨ handle = .full) :
    ∃ f d', d.sync handle = (.error f, d') ∧ d'.Lays p host es := by
  have h' := h.counted (d.calls + 1) d.readings
  rw [Disk.sync]
  rcases h.perform _ with ⟨f, hf, -⟩ | ha
  · exact ⟨f, _, hf, h'⟩
  · refine ⟨.invalidArgument, _, ?_, h'⟩
    rw [ha]
    rcases hd with rfl | rfl <;> rfl

theorem close (h : d.Lays p host es) (handle : Handle) :
    (∃ d', d.close handle = (.ok (), d') ∧ d'.Lays p host es) ∨
    (∃ f d', d.close handle = (.error f, d') ∧ d'.Lays p host es ∧ ¬ host.IsWilling) := by
  have h' := h.counted (d.calls + 1) d.readings
  rw [Disk.close]
  rcases h.perform _ with ⟨f, hf, hno⟩ | ha
  · exact .inr ⟨f, _, hf, h', hno⟩
  · exact .inl ⟨_, ha, h'⟩

/-- Opening, appending and forcing out, with the outcome of each. -/
inductive Fill (p : Place) (host : Host) (d : Disk) (es : Entries) (name : String)
    (truncate : Bool) (bs : Octets) : Prop where
  | unopened (f : SystemFault) (d₁ : Disk)
      (hopen : d.openForWriting name truncate = (.error f, d₁)) (h : d₁.Lays p host es)
      (hno : ¬ (host.IsWilling ∧ p.Fits name ∧ IsWritable es name))
  /-- The first octets may be there, if the host has refused the call. -/
  | unwritten (handle : Handle) (f : SystemFault) (d₁ d₂ : Disk) (es' : Entries)
      (hopen : d.openForWriting name truncate = (.ok handle, d₁))
      (happend : d₁.append handle bs = (.error f, d₂)) (h : d₂.Lays p host es')
      (hes : es' = es ∨ ¬ host.IsWilling ∧ ∃ taken mode, es' = Named.insert name
        (.file ((if truncate then [] else contentsOf es name) ++ bs.take taken) mode) es)
      (hno : ¬ (host.IsWilling ∧ p.Fits name ∧ IsWritable es name))
  /-- All octets may be there, if the host has refused the call. -/
  | unforced (handle : Handle) (f : SystemFault) (d₁ d₂ d₃ : Disk) (es' : Entries)
      (hopen : d.openForWriting name truncate = (.ok handle, d₁))
      (happend : d₁.append handle bs = (.ok (), d₂)) (hsync : d₂.sync handle = (.error f, d₃))
      (h : d₃.Lays p host es')
      (hes : es' = es ∨ ¬ host.IsWilling ∧ ∃ mode, es' = Named.insert name
        (.file ((if truncate then [] else contentsOf es name) ++ bs) mode) es)
      (hno : ¬ (host.IsWilling ∧ p.Fits name ∧ IsWritable es name))
  | filled (handle : Handle) (d₁ d₂ d₃ : Disk) (mode : Nat)
      (hopen : d.openForWriting name truncate = (.ok handle, d₁))
      (happend : d₁.append handle bs = (.ok (), d₂)) (hsync : d₂.sync handle = (.ok (), d₃))
      (h : d₃.Lays p host (Named.insert name
        (.file ((if truncate then [] else contentsOf es name) ++ bs) mode) es))
      (hfit : p.Fits name) (hw : IsWritable es name)

theorem fill (h : d.Lays p host es) (hn : IsEntryName name) (hl : IsUnlinked es name)
    (truncate : Bool) (bs : Octets) : Fill p host d es name truncate bs := by
  rcases h.openForWriting hn hl truncate with ⟨d₁, mode, hopen, h₁, hfit, hw⟩ |
    ⟨handle, d₁, hopen, h₁, hd, hnw⟩ | ⟨f, d₁, hopen, h₁, hno⟩
  · -- a file
    have hg := Named.get?_insert_self name
      (Node.file (if truncate then [] else contentsOf es name) mode) es
    rcases h₁.append hg bs with ⟨d₂, happend, h₂⟩ | ⟨f, d₂, taken, happend, h₂, hno⟩
    · rw [Named.insert_insert] at h₂
      rcases h₂.sync name with ⟨d₃, hsync, h₃⟩ | ⟨f, d₃, hsync, h₃, hno⟩
      · exact .filled _ d₁ d₂ d₃ mode hopen happend hsync h₃ hfit hw
      · exact .unforced _ f d₁ d₂ d₃ _ hopen happend hsync h₃ (.inr ⟨hno, mode, rfl⟩)
          fun hwilling => hno hwilling.1
    · rw [Named.insert_insert] at h₂
      exact .unwritten _ f d₁ d₂ _ hopen happend h₂ (.inr ⟨hno, taken, mode, rfl⟩)
        fun hwilling => hno hwilling.1
  · -- a device, which cannot be forced out
    have h₂ := h₁.append_device hd bs
    rcases happend : d₁.append handle bs with ⟨r, d₂⟩
    rw [happend] at h₂
    cases r with
    | error f =>
      exact .unwritten handle f d₁ d₂ es hopen happend h₂ (.inl rfl) fun hw => hnw hw.2.2
    | ok u =>
      obtain ⟨f, d₃, hsync, h₃⟩ := h₂.sync_device hd
      exact .unforced handle f d₁ d₂ d₃ es hopen happend hsync h₃ (.inl rfl) fun hw => hnw hw.2.2
  · exact .unopened f d₁ hopen h₁ hno

/-! ## Moving and removing -/

/-- A file takes the place of another. -/
theorem rename (h : d.Lays p host es) {source destination : String} (hs : IsEntryName source)
    (hd : IsEntryName destination) (hgs : Named.get? es source = some (.file c mode))
    (hgd : IsWritable es destination) :
    (∃ d', d.rename source destination = (.ok (), d') ∧
      d'.Lays p host (Named.insert destination (.file c mode) (Named.erase source es))) ∨
    (∃ f d', d.rename source destination = (.error f, d') ∧ d'.Lays p host es ∧
      ¬ (host.IsWilling ∧ p.Fits source ∧ p.Fits destination)) := by
  have h' := h.counted (d.calls + 1) d.readings
  have hss := h'.spot hs .entry (.inl rfl)
  have hsd := h'.spot hd .entry (.inl rfl)
  rw [Disk.rename]
  rcases h.perform _ with ⟨f, hf, hno⟩ | ha
  · exact .inr ⟨f, _, hf, h', fun hw => hno hw.1⟩
  · rw [ha]
    by_cases hfs : p.Fits source
    · by_cases hfd : p.Fits destination
      · refine .inl ⟨_, ?_, h'.withEntries ((h.ordered.erase source).insert destination
          (.file c mode))⟩
        simp only [hss.1 hfs, hsd.1 hfd, h'.entries, hgs]
        rcases hgd with hgd | ⟨c', mode', hgd⟩ <;> simp only [hgd]
      · refine .inr ⟨.nameTooLong, _, ?_, h', fun hw => hfd hw.2.2⟩
        simp only [hss.1 hfs, hsd.2 hfd]
    · refine .inr ⟨.nameTooLong, _, ?_, h', fun hw => hfs hw.2.1⟩
      simp only [hss.2 hfs]

/-- Something under a name is removed, or there is nothing that can be removed. -/
theorem remove (h : d.Lays p host es) (hn : IsEntryName name) :
    (∃ d', d.remove name = (.ok (), d') ∧ d'.Lays p host (Named.erase name es)) ∨
    (∃ f d', d.remove name = (.error f, d') ∧ d'.Lays p host es ∧
      ¬ (host.IsWilling ∧ p.Fits name ∧ ∃ c mode, Named.get? es name = some (.file c mode))) := by
  have h' := h.counted (d.calls + 1) d.readings
  have hspot := h'.spot hn .entry (.inl rfl)
  rw [Disk.remove]
  rcases h.perform _ with ⟨f, hf, hno⟩ | ha
  · exact .inr ⟨f, _, hf, h', fun hw => hno hw.1⟩
  · rw [ha]
    by_cases hfit : p.Fits name
    · have hs := hspot.1 hfit
      have hremoved := h'.withEntries (h.ordered.erase name)
      cases hg : Named.get? es name with
      | none =>
        refine .inr ⟨.notFound, _, ?_, h', ?_⟩
        · simp only [hs, h'.entries, hg]
        · rintro ⟨-, -, c, mode, hc⟩
          contradiction
      | some node =>
        cases node with
        | directory sub mode =>
          refine .inr ⟨.isADirectory, _, ?_, h', ?_⟩
          · simp only [hs, h'.entries, hg]
          · rintro ⟨-, -, c, mode, hc⟩
            cases hc
        | file c mode =>
          refine .inl ⟨_, ?_, hremoved⟩
          simp only [hs, h'.entries, hg]
        | link target =>
          refine .inl ⟨_, ?_, hremoved⟩
          simp only [hs, h'.entries, hg]
        | sink =>
          refine .inl ⟨_, ?_, hremoved⟩
          simp only [hs, h'.entries, hg]
        | full =>
          refine .inl ⟨_, ?_, hremoved⟩
          simp only [hs, h'.entries, hg]
    · refine .inr ⟨.nameTooLong, _, ?_, h', fun hw => hfit hw.2.1⟩
      simp only [hspot.2 hfit]

end Lays

end Disk

end AuditRelay
