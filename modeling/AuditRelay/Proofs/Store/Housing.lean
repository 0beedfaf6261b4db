import AuditRelay.Proofs.Store.Files
import AuditRelay.Proofs.Store.Refusals
import Mathlib.Logic.Function.Basic

/-!
# AuditRelay.Proofs.Store.Housing — event files and dead letters, whatever fails

A directory houses event files and, under the names of stamps, dead letters (`Disk.Houses`). Here is
what becomes of both with every part of an operation of a spool, on a host that may refuse any call:
one statement for each part, with its outcome when it succeeds and when it fails. No link may stand
under the names of a spool's own files (`Place.IsUnlinked`).

Where it matters later that nothing fails, the statement says what a failure shows: that the host is
not willing, or that something else than a file is in the way, or that a name is too long
(`Place.Serves`).
-/

namespace AuditRelay

open Spool (fileName eventStem deadLetterStem tempName isEventFile stampLimit lineFeed)

/-! ## Entries -/

theorem isEntryName_of_length {name : String} (h : 2 < name.toList.length) : IsEntryName name := by
  refine ⟨?_, ?_, ?_⟩ <;> rintro rfl <;> exact absurd h (by decide)

theorem Spool.isEntryName_of_isEventFile {name : String} (h : Spool.isEventFile name = true) :
    IsEntryName name := by
  have hl := (Spool.stem_prefix_of_isEventFile h).length_le
  have hstem : Spool.eventStem.toList.length = 13 := by decide
  exact isEntryName_of_length (by omega)

theorem Spool.IsAside.isEntryName {name : String} (h : Spool.IsAside name) : IsEntryName name := by
  refine isEntryName_of_length ?_
  cases h with
  | deadLetters n =>
    have hstem : Spool.deadLetterStem.toList.length = 24 := by decide
    rw [Spool.toList_fileName, List.length_append, List.length_append]
    omega
  | temp name _ =>
    have hend : ".tmp".toList.length = 4 := by decide
    rw [Spool.toList_tempName, List.length_append, List.length_cons]
    omega

/-- Every entry stood there before or is a file. -/
def Grown (before es : Entries) : Prop :=
  ∀ name node, Named.get? es name = some node →
    Named.get? before name = some node ∨ ∃ c mode, node = .file c mode

namespace Grown

variable {before es : Entries} {name : String}

theorem refl (es : Entries) : Grown es es := fun _ _ h => .inl h

theorem insert (h : Grown before es) (name : String) (c : Octets) (mode : Nat) :
    Grown before (Named.insert name (.file c mode) es) := by
  intro k node hk
  rw [Named.get?_insert] at hk
  split at hk
  · exact .inr ⟨c, mode, (Option.some.inj hk).symm⟩
  · exact h k node hk

theorem erase (h : Grown before es) (name : String) : Grown before (Named.erase name es) := by
  intro k node hk
  rw [Named.get?_erase] at hk
  split at hk
  · contradiction
  · exact h k node hk

theorem isUnlinked (h : Grown before es) (hl : IsUnlinked before name) : IsUnlinked es name := by
  intro target ht
  rcases h name _ ht with hb | ⟨c, mode, hc⟩
  · exact hl target hb
  · contradiction

end Grown

theorem contentsOf_insert (name : String) (c : Octets) (mode : Nat) (es : Entries) (k : String) :
    contentsOf (Named.insert name (.file c mode) es) k = if k = name then c else contentsOf es k := by
  rw [contentsOf, Named.get?_insert]
  by_cases hk : k = name
  · rw [if_pos hk, if_pos hk]
  · rw [if_neg hk, if_neg hk, contentsOf]

theorem contentsOf_erase (name : String) (es : Entries) (k : String) :
    contentsOf (Named.erase name es) k = if k = name then [] else contentsOf es k := by
  rw [contentsOf, Named.get?_erase]
  by_cases hk : k = name
  · rw [if_pos hk, if_pos hk]
  · rw [if_neg hk, if_neg hk, contentsOf]

namespace Spool

/-- No two stamps share a file, however many digits they have. -/
theorem stamp_injective {stem : String} {n m : Nat} (h : fileName stem n = fileName stem m) :
    n = m := by
  have hl := congrArg String.toList h
  rw [toList_fileName, toList_fileName] at hl
  have hpadded := List.append_cancel_left (List.append_cancel_right hl)
  have hvalue := congrArg (Nat.ofDigitChars 10 · 0) hpadded
  simpa only [Text.ofDigitChars_padded] using hvalue

/-- The dead letters with a stamp. -/
def lettersIn (es : Entries) (n : Nat) : Octets := contentsOf es (fileName deadLetterStem n)

theorem lettersIn_insert (n : Nat) (c : Octets) (mode : Nat) (es : Entries) :
    lettersIn (Named.insert (fileName deadLetterStem n) (.file c mode) es) =
      Function.update (lettersIn es) n c := by
  funext m
  rw [lettersIn, contentsOf_insert]
  by_cases hm : m = n
  · rw [hm, if_pos rfl, Function.update_self]
  · rw [if_neg fun h => hm (stamp_injective h), Function.update_of_ne hm, lettersIn]

theorem lettersIn_insert_of_ne {name : String} (hn : ∀ n, name ≠ fileName deadLetterStem n)
    (c : Octets) (mode : Nat) (es : Entries) :
    lettersIn (Named.insert name (.file c mode) es) = lettersIn es := by
  funext m
  rw [lettersIn, contentsOf_insert, if_neg (Ne.symm (hn m)), lettersIn]

theorem lettersIn_erase_of_ne {name : String} (hn : ∀ n, name ≠ fileName deadLetterStem n)
    (es : Entries) : lettersIn (Named.erase name es) = lettersIn es := by
  funext m
  rw [lettersIn, contentsOf_erase, if_neg (Ne.symm (hn m)), lettersIn]

theorem lettersIn_eq_nil {es : Entries} {n : Nat}
    (h : ∀ c mode, (fileName deadLetterStem n, Node.file c mode) ∉ es) : lettersIn es n = [] := by
  rw [lettersIn, contentsOf]
  split
  · rename_i c mode hg
    exact absurd (Named.mem_of_get? hg) (h c mode)
  · rfl

/-- The contents of an event file, empty if there is none. -/
theorem contentsOf_event {es : Entries} (ho : Named.IsOrdered es) {name : String}
    (hn : isEventFile name = true) : contentsOf es name = (Named.get? (files es) name).getD [] := by
  cases hg : Named.get? (files es) name with
  | some c =>
    obtain ⟨-, mode, hfile⟩ := get?_files ho hg
    rw [contentsOf, hfile, Option.getD_some]
  | none =>
    rw [contentsOf]
    split
    · rename_i c mode hfile
      rw [get?_files_of_file hn hfile] at hg
      contradiction
    · rfl

end Spool

/-! ## Places -/

/-- No link stood under the names of a spool's own files. -/
structure Place.IsUnlinked (p : Place) : Prop where
  aside : ∀ name, Spool.IsAside name → AuditRelay.IsUnlinked p.found name
  events : ∀ n, AuditRelay.IsUnlinked p.found (fileName eventStem n)

/-- Whatever stood under the name of an event file was a file. -/
def Place.IsRegular (p : Place) : Prop :=
  ∀ name node, Named.get? p.found name = some node → isEventFile name = true →
    ∃ c mode, node = .file c mode

/-- In a regular directory an event file can be written under every name that is made for one. -/
theorem Place.IsRegular.isWritable {p : Place} (hp : p.IsRegular) {es : Entries}
    (hg : Grown p.found es) {name : String} (hn : isEventFile name = true) :
    IsWritable es name := by
  cases hthere : Named.get? es name with
  | none => exact .inl hthere
  | some node =>
    refine .inr ?_
    rcases hg name node hthere with hfound | ⟨c, mode, rfl⟩
    · obtain ⟨c, mode, rfl⟩ := hp name node hfound hn
      exact ⟨c, mode, hthere⟩
    · exact ⟨c, mode, hthere⟩

/-- What stands under the name of an event file is a file with a stamp of twenty digits, and no link
stands under the other names that a spool uses. -/
structure Place.IsStamped (p : Place) : Prop where
  aside : ∀ name, Spool.IsAside name → AuditRelay.IsUnlinked p.found name
  events : ∀ name node, Named.get? p.found name = some node → isEventFile name = true →
    ∃ n c mode, n < stampLimit ∧ name = fileName eventStem n ∧ node = .file c mode

namespace Place.IsStamped

variable {p : Place}

theorem isRegular (hp : p.IsStamped) : p.IsRegular := by
  intro name node hg hn
  obtain ⟨n, c, mode, -, -, rfl⟩ := hp.events name node hg hn
  exact ⟨c, mode, rfl⟩

theorem isUnlinked (hp : p.IsStamped) : p.IsUnlinked := by
  refine ⟨hp.aside, fun n target ht => ?_⟩
  obtain ⟨m, c, mode, -, -, hnode⟩ := hp.events _ _ ht (Spool.isEventFile_fileName n)
  cases hnode

end Place.IsStamped

/-! ### Places where nothing fails -/

/-- No call of a spool fails here as long as its stamps have at most twenty digits. -/
structure Place.Serves (p : Place) (host : Host) : Prop where
  willing : host.IsWilling
  room : 50 ≤ p.room
  regular : ∀ name node, Named.get? p.found name = some node → ∃ c mode, node = .file c mode

theorem Spool.utf8ByteSize_deadLetters {n : Nat} (h : n < stampLimit) :
    (fileName deadLetterStem n).utf8ByteSize = 50 := by
  rw [utf8ByteSize_stamped deadLetterStem h]
  rfl

theorem Spool.utf8ByteSize_tempName (name : String) :
    (tempName name).utf8ByteSize = name.utf8ByteSize + 5 := by
  have hname : String.utf8Len name.toList = name.utf8ByteSize := by
    conv_rhs => rw [← String.ofList_toList (s := name), String.utf8ByteSize_ofList]
  have hdot : String.utf8Len ['.'] = 1 := rfl
  have hend : String.utf8Len ".tmp".toList = 4 := by decide
  have hcons : '.' :: name.toList ++ ".tmp".toList = ['.'] ++ name.toList ++ ".tmp".toList := rfl
  rw [tempName, String.utf8ByteSize_ofList, hcons, String.utf8Len_append, String.utf8Len_append,
    hname, hdot, hend]
  omega

namespace Place.Serves

variable {p : Place} {host : Host} {es : Entries} {name : String} {n : Nat}

theorem fits (h : p.Serves host) (hl : name.utf8ByteSize ≤ 50) : p.Fits name := by
  constructor
  · have hroom := h.room
    omega
  · exact hl.trans (by decide)

theorem fits_event (h : p.Serves host) (hn : n < stampLimit) : p.Fits (fileName eventStem n) :=
  h.fits (by rw [Spool.utf8ByteSize_fileName hn]; decide)

theorem fits_temp (h : p.Serves host) (hn : n < stampLimit) :
    p.Fits (tempName (fileName eventStem n)) :=
  h.fits (by rw [Spool.utf8ByteSize_tempName, Spool.utf8ByteSize_fileName hn]; decide)

theorem fits_letters (h : p.Serves host) (hn : n < stampLimit) :
    p.Fits (fileName deadLetterStem n) :=
  h.fits (by rw [Spool.utf8ByteSize_deadLetters hn])

/-- Only files stand there. -/
theorem isWritable (h : p.Serves host) (hg : Grown p.found es) (name : String) :
    IsWritable es name := by
  cases he : Named.get? es name with
  | none => exact .inl he
  | some node =>
    rcases hg name node he with hfound | ⟨c, mode, rfl⟩
    · obtain ⟨c, mode, rfl⟩ := h.regular name node hfound
      exact .inr ⟨c, mode, he⟩
    · exact .inr ⟨c, mode, he⟩

end Place.Serves

/-! ## What a directory houses -/

/-- The directory has these event files and these dead letters. -/
def Disk.Houses (p : Place) (host : Host) (d : Disk) (fs : Named Octets) (ls : Nat → Octets) :
    Prop :=
  ∃ es, d.Lays p host es ∧ Grown p.found es ∧ Spool.files es = fs ∧ Spool.lettersIn es = ls

/-- The event files of the directory. -/
def Disk.files (d : Disk) : Named Octets :=
  match d.entries with
  | .ok es => Spool.files es
  | .error _ => []

/-- The dead letters of the directory with a stamp. -/
def Disk.letters (d : Disk) (n : Nat) : Octets :=
  match d.entries with
  | .ok es => Spool.lettersIn es n
  | .error _ => []

namespace Disk.Houses

variable {p : Place} {host : Host} {d : Disk} {fs : Named Octets} {ls : Nat → Octets}
  {name : String} {c : Octets} {n : Nat}

theorem ordered (h : d.Houses p host fs ls) : Named.IsOrdered fs := by
  obtain ⟨es, hes, -, rfl, -⟩ := h
  exact Spool.files_ordered hes.ordered

theorem host_eq (h : d.Houses p host fs ls) : d.host = host := by
  obtain ⟨es, hes, -⟩ := h
  exact hes.host

theorem files_eq (h : d.Houses p host fs ls) : d.files = fs := by
  obtain ⟨es, hes, -, rfl, -⟩ := h
  rw [Disk.files, hes.entries]

theorem letters_eq (h : d.Houses p host fs ls) : d.letters = ls := by
  obtain ⟨es, hes, -, -, rfl⟩ := h
  funext n
  rw [Disk.letters, hes.entries]

theorem counted (h : d.Houses p host fs ls) (calls readings : Nat) :
    Houses p host { d with calls, readings } fs ls := by
  obtain ⟨es, hes, hg, hf, hl⟩ := h
  exact ⟨es, hes.counted calls readings, hg, hf, hl⟩

/-- Event files are files under the names of event files. -/
theorem isEventFile_of_mem (h : d.Houses p host fs ls) {f : String × Octets} (hf : f ∈ fs) :
    isEventFile f.1 = true := by
  obtain ⟨es, -, -, rfl, -⟩ := h
  exact (Spool.mem_files hf).1

/-! ## Looking -/

theorem listFiles (h : d.Houses p host fs ls) :
    (∃ d', Spool.listFiles d = (.ok (fs.map Prod.fst), d') ∧ d'.Houses p host fs ls) ∨
    (∃ f d', Spool.listFiles d = (.error f, d') ∧ d'.Houses p host fs ls ∧ ¬ host.IsWilling) := by
  obtain ⟨es, hes, hg, hf, hl⟩ := h
  rcases hes.list with ⟨d', hlist, h'⟩ | ⟨f, d', hlist, h', hno⟩
  · refine .inl ⟨d', ?_, es, h', hg, hf, hl⟩
    simp only [Spool.listFiles, hlist, Spool.eventFiles_eq, hf]
  · refine .inr ⟨.io .listDirectory f, d', ?_, ⟨es, h', hg, hf, hl⟩, hno⟩
    simp only [Spool.listFiles, hlist]

theorem size (h : d.Houses p host fs ls) (name : String) : (d.size name).2.Houses p host fs ls := by
  obtain ⟨es, hes, hg, hf, hl⟩ := h
  exact ⟨es, hes.size name, hg, hf, hl⟩

theorem sizeOrZero (h : d.Houses p host fs ls) (name : String) :
    (Spool.sizeOrZero d name).2.Houses p host fs ls := by
  have h' := h.size name
  rw [Spool.sizeOrZero]
  rcases hsize : d.size name with ⟨_ | _, d'⟩ <;> rw [hsize] at h' <;> exact h'

theorem sumSizes (h : d.Houses p host fs ls) (names : List String) :
    (Spool.sumSizes d names).2.Houses p host fs ls := by
  induction names generalizing d with
  | nil => exact h
  | cons name names ih =>
    rw [Spool.sumSizes]
    exact ih (h.sizeOrZero name)

/-- The contents of an event file, or why they could not be read. -/
theorem read (h : d.Houses p host fs ls) (hg : Named.get? fs name = some c) :
    (∃ d₁ d₂, d.openForReading name = (.ok (p.handle name), d₁) ∧
      d₁.readAll (p.handle name) = (.ok c, d₂) ∧ d₂.Houses p host fs ls) ∨
    (∃ f d₁, d.openForReading name = (.error f, d₁) ∧ d₁.Houses p host fs ls ∧
      ¬ (host.IsWilling ∧ p.Fits name)) ∨
    (∃ f d₁ d₂, d.openForReading name = (.ok (p.handle name), d₁) ∧
      d₁.readAll (p.handle name) = (.error f, d₂) ∧ d₂.Houses p host fs ls ∧
      ¬ (host.IsWilling ∧ p.Fits name)) := by
  obtain ⟨es, hes, hgrown, rfl, hl⟩ := h
  obtain ⟨hn, mode, hfile⟩ := Spool.get?_files hes.ordered hg
  rcases hes.openForReading (Spool.isEntryName_of_isEventFile hn) hfile with
    ⟨d₁, hopen, h₁⟩ | ⟨f, d₁, hopen, h₁, hno⟩
  · rcases h₁.readAll hfile with ⟨d₂, hread, h₂⟩ | ⟨f, d₂, hread, h₂, hno⟩
    · exact .inl ⟨d₁, d₂, hopen, hread, es, h₂, hgrown, rfl, hl⟩
    · exact .inr (.inr ⟨f, d₁, d₂, hopen, hread, ⟨es, h₂, hgrown, rfl, hl⟩,
        fun hw => hno hw.1⟩)
  · exact .inr (.inl ⟨f, d₁, hopen, ⟨es, h₁, hgrown, rfl, hl⟩, hno⟩)

/-! ## Event files -/

theorem remove (h : d.Houses p host fs ls) (hn : isEventFile name = true) :
    (∃ d', d.remove name = (.ok (), d') ∧ d'.Houses p host (Named.erase name fs) ls) ∨
    (∃ f d', d.remove name = (.error f, d') ∧ d'.Houses p host fs ls ∧
      ¬ (host.IsWilling ∧ p.Fits name ∧ ∃ c, Named.get? fs name = some c)) := by
  obtain ⟨es, hes, hg, rfl, hl⟩ := h
  rcases hes.remove (Spool.isEntryName_of_isEventFile hn) with
    ⟨d', hremove, h'⟩ | ⟨f, d', hremove, h', hno⟩
  · refine .inl ⟨d', hremove, _, h', hg.erase name, Spool.files_erase es name, ?_⟩
    rw [Spool.lettersIn_erase_of_ne (Spool.ne_deadLetters hn), hl]
  · refine .inr ⟨f, d', hremove, ⟨es, h', hg, rfl, hl⟩, ?_⟩
    rintro ⟨hw, hfit, c, hc⟩
    obtain ⟨-, mode, hfile⟩ := Spool.get?_files hes.ordered hc
    exact hno ⟨hw, hfit, c, mode, hfile⟩

/-- An event file is put in, or gets other contents. -/
theorem insert_event {es : Entries} (hes : d.Lays p host (Named.insert name (.file c n) es))
    (ho : Named.IsOrdered es) (hg : Grown p.found es) (hn : isEventFile name = true) :
    d.Houses p host (Named.insert name c (Spool.files es)) (Spool.lettersIn es) :=
  ⟨_, hes, hg.insert name c n, Spool.files_insert ho hn c n,
    Spool.lettersIn_insert_of_ne (Spool.ne_deadLetters hn) c n es⟩

/-- A line is put behind an event file, or into a new one. If that fails once the file is open the
line may be there all the same, or, if it could not be written, the beginning of it. On a willing host
it fails only if something else than a file is in the way or the name is too long, and then nothing is
there. -/
theorem writeLine (h : d.Houses p host fs ls) (hp : p.IsUnlinked) (s : Spool) (n : Nat)
    (line : Octets) :
    (∃ d', s.writeLine d (fileName eventStem n) line = (.ok (), s, d') ∧
      d'.Houses p host (Named.insert (fileName eventStem n)
        ((Named.get? fs (fileName eventStem n)).getD [] ++ line) fs) ls ∧
      p.Fits (fileName eventStem n)) ∨
    (∃ op f d' fs', s.writeLine d (fileName eventStem n) line = s.failed op f d' ∧
      d'.Houses p host fs' ls ∧ op ∈ [.writeOpen, .writeIo, .writeSync, .writeClose] ∧
      (fs' = fs ∨ op ≠ .writeOpen ∧ fs' = Named.insert (fileName eventStem n)
          ((Named.get? fs (fileName eventStem n)).getD [] ++ line) fs ∨
        op = .writeIo ∧ ∃ taken, fs' = Named.insert (fileName eventStem n)
          ((Named.get? fs (fileName eventStem n)).getD [] ++ line.take taken) fs) ∧
      (host.IsWilling → fs' = fs ∧ ¬ (p.IsRegular ∧ p.Fits (fileName eventStem n)))) := by
  obtain ⟨es, hes, hg, rfl, rfl⟩ := h
  have hn := Spool.isEventFile_fileName n
  have hold := Spool.contentsOf_event hes.ordered hn
  -- a call that fails for a reason of its own
  have hown : ¬ (host.IsWilling ∧ p.Fits (fileName eventStem n) ∧
        IsWritable es (fileName eventStem n)) → host.IsWilling →
      Spool.files es = Spool.files es ∧ ¬ (p.IsRegular ∧ p.Fits (fileName eventStem n)) :=
    fun hno hwilling => ⟨rfl, fun hr => hno ⟨hwilling, hr.2, hr.1.isWritable hg hn⟩⟩
  have hfill := hes.fill (Spool.isEntryName_of_isEventFile hn) (hg.isUnlinked (hp.events n)) false
    line
  cases hfill with
  | unopened f d₁ hopen h₁ hno =>
    refine .inr ⟨.writeOpen, f, d₁, _, ?_, ⟨es, h₁, hg, rfl, rfl⟩, by simp, .inl rfl, hown hno⟩
    simp only [Spool.writeLine, hopen]
  | unwritten handle f d₁ d₂ es' hopen happend h₂ hes' hno =>
    have hrun : s.writeLine d (fileName eventStem n) line = s.failed .writeIo f d₂ := by
      simp only [Spool.writeLine, hopen, happend]
    rcases hes' with rfl | ⟨hnot, taken, mode, rfl⟩
    · exact .inr ⟨.writeIo, f, d₂, _, hrun, ⟨_, h₂, hg, rfl, rfl⟩, by simp, .inl rfl, hown hno⟩
    · refine .inr ⟨.writeIo, f, d₂, _, hrun, insert_event h₂ hes.ordered hg hn, by simp,
        .inr (.inr ⟨rfl, taken, ?_⟩), fun hwilling => absurd hwilling hnot⟩
      rw [if_neg Bool.false_ne_true, hold]
  | unforced handle f d₁ d₂ d₃ es' hopen happend hsync h₃ hes' hno =>
    have hrun : s.writeLine d (fileName eventStem n) line = s.failed .writeSync f d₃ := by
      simp only [Spool.writeLine, hopen, happend, hsync]
    rcases hes' with rfl | ⟨hnot, mode, rfl⟩
    · exact .inr ⟨.writeSync, f, d₃, _, hrun, ⟨_, h₃, hg, rfl, rfl⟩, by simp, .inl rfl, hown hno⟩
    · refine .inr ⟨.writeSync, f, d₃, _, hrun, insert_event h₃ hes.ordered hg hn, by simp,
        .inr (.inl ⟨by decide, ?_⟩), fun hwilling => absurd hwilling hnot⟩
      rw [if_neg Bool.false_ne_true, hold]
  | filled handle d₁ d₂ d₃ mode hopen happend hsync h₃ hfit hw =>
    -- closing changes nothing, but it may be refused
    rcases h₃.close handle with ⟨d₄, hclose, h₄⟩ | ⟨f, d₄, hclose, h₄, hnot⟩
    · have h₅ := insert_event h₄ hes.ordered hg hn
      rw [if_neg Bool.false_ne_true, hold] at h₅
      refine .inl ⟨d₄, ?_, h₅, hfit⟩
      simp only [Spool.writeLine, hopen, happend, hsync, hclose]
    · have h₅ := insert_event h₄ hes.ordered hg hn
      rw [if_neg Bool.false_ne_true, hold] at h₅
      refine .inr ⟨.writeClose, f, d₄, _, ?_, h₅, by simp, .inr (.inl ⟨by decide, rfl⟩),
        fun hwilling => absurd hwilling hnot⟩
      simp only [Spool.writeLine, hopen, happend, hsync, hclose]

/-! ## Files beside the event files -/

/-- Dead letters are put behind those with their stamp, all or, if that fails, perhaps some
octets, though none on a willing host. -/
theorem writeLetters (h : d.Houses p host fs ls) (hp : p.IsUnlinked) (n : Nat)
    (letters : List Spool.DeadLetter) :
    (∃ d', Spool.writeLetters d (fileName deadLetterStem n) letters = (.ok (), d') ∧
      d'.Houses p host fs
        (Function.update ls n (ls n ++ letters.flatMap Spool.DeadLetter.written))) ∨
    (∃ f d' ls', Spool.writeLetters d (fileName deadLetterStem n) letters = (.error f, d') ∧
      d'.Houses p host fs ls' ∧ (host.IsWilling → ls' = ls) ∧
      ¬ (p.Serves host ∧ n < stampLimit)) := by
  obtain ⟨es, hes, hg, rfl, rfl⟩ := h
  have hn : Spool.IsAside (fileName deadLetterStem n) := .deadLetters n
  have hserves : ¬ (host.IsWilling ∧ p.Fits (fileName deadLetterStem n) ∧
      IsWritable es (fileName deadLetterStem n)) → ¬ (p.Serves host ∧ n < stampLimit) :=
    fun hno hs => hno ⟨hs.1.willing, hs.1.fits_letters hs.2, hs.1.isWritable hg _⟩
  have hinsert : ∀ {d' : Disk} {c : Octets} {mode : Nat},
      d'.Lays p host (Named.insert (fileName deadLetterStem n) (.file c mode) es) →
        d'.Houses p host (Spool.files es) (Function.update (Spool.lettersIn es) n c) :=
    fun h' => ⟨_, h', hg.insert _ _ _, Spool.files_insert_of_not hn.not_isEventFile _,
      Spool.lettersIn_insert _ _ _ _⟩
  have hfill := hes.fill hn.isEntryName (hg.isUnlinked (hp.aside _ hn)) false
    (letters.flatMap Spool.DeadLetter.written)
  cases hfill with
  | unopened f d₁ hopen h₁ hno =>
    refine .inr ⟨.io .openDeadLetter f, d₁, _, ?_, ⟨es, h₁, hg, rfl, rfl⟩, fun _ => rfl, hserves hno⟩
    simp only [Spool.writeLetters, hopen]
  | unwritten handle f d₁ d₂ es' hopen happend h₂ hes' hno =>
    have hrun : Spool.writeLetters d (fileName deadLetterStem n) letters =
        (.error (.io .writeDeadLetter f), d₂) := by
      simp only [Spool.writeLetters, hopen, happend]
    rcases hes' with rfl | ⟨hnot, taken, mode, rfl⟩
    · exact .inr ⟨_, d₂, _, hrun, ⟨_, h₂, hg, rfl, rfl⟩, fun _ => rfl, hserves hno⟩
    · exact .inr ⟨_, d₂, _, hrun, hinsert h₂, fun hwilling => absurd hwilling hnot, hserves hno⟩
  | unforced handle f d₁ d₂ d₃ es' hopen happend hsync h₃ hes' hno =>
    have hrun : Spool.writeLetters d (fileName deadLetterStem n) letters =
        (.error (.io .syncDeadLetter f), d₃) := by
      simp only [Spool.writeLetters, hopen, happend, hsync]
    rcases hes' with rfl | ⟨hnot, mode, rfl⟩
    · exact .inr ⟨_, d₃, _, hrun, ⟨_, h₃, hg, rfl, rfl⟩, fun _ => rfl, hserves hno⟩
    · exact .inr ⟨_, d₃, _, hrun, hinsert h₃, fun hwilling => absurd hwilling hnot, hserves hno⟩
  | filled handle d₁ d₂ d₃ mode hopen happend hsync h₃ hfit hw =>
    refine .inl ⟨d₃, ?_, ?_⟩
    · simp only [Spool.writeLetters, hopen, happend, hsync]
    · rw [if_neg Bool.false_ne_true] at h₃
      exact hinsert h₃

/-- Either the contents of an event file are replaced, or they stay. -/
theorem replace (h : d.Houses p host fs ls) (hp : p.IsUnlinked) (hg : Named.get? fs name = some c)
    (bs : Octets) :
    (∃ d', Spool.replace d name bs = (.ok (), d') ∧
      d'.Houses p host (Named.insert name bs fs) ls) ∨
    (∃ f d', Spool.replace d name bs = (.error f, d') ∧ d'.Houses p host fs ls ∧
      ¬ (p.Serves host ∧ p.Fits name ∧ p.Fits (tempName name))) := by
  obtain ⟨es, hes, hgrown, rfl, rfl⟩ := h
  obtain ⟨hevent, mode₀, hfile⟩ := Spool.get?_files hes.ordered hg
  have hn : Spool.IsAside (tempName name) := .temp name hevent
  have hserves : ¬ (host.IsWilling ∧ p.Fits (tempName name) ∧ IsWritable es (tempName name)) →
      ¬ (p.Serves host ∧ p.Fits name ∧ p.Fits (tempName name)) :=
    fun hno hs => hno ⟨hs.1.willing, hs.2.2, hs.1.isWritable hgrown _⟩
  -- what is prepared beside the event file does not show
  have hprepared : ∀ {d' : Disk} {c : Octets} {mode : Nat},
      d'.Lays p host (Named.insert (tempName name) (.file c mode) es) →
        d'.Houses p host (Spool.files es) (Spool.lettersIn es) :=
    fun h' => ⟨_, h', hgrown.insert _ _ _, Spool.files_insert_of_not hn.not_isEventFile _,
      Spool.lettersIn_insert_of_ne (Spool.ne_deadLetters_tempName name) _ _ _⟩
  have hfill := hes.fill hn.isEntryName (hgrown.isUnlinked (hp.aside _ hn)) true bs
  cases hfill with
  | unopened f d₁ hopen h₁ hno =>
    refine .inr ⟨f, d₁, ?_, ⟨es, h₁, hgrown, rfl, rfl⟩, hserves hno⟩
    simp only [Spool.replace, hopen]
  | unwritten handle f d₁ d₂ es' hopen happend h₂ hes' hno =>
    have hrun : Spool.replace d name bs = (.error f, d₂) := by
      simp only [Spool.replace, hopen, happend]
    rcases hes' with rfl | ⟨-, taken, mode, rfl⟩
    · exact .inr ⟨f, d₂, hrun, ⟨_, h₂, hgrown, rfl, rfl⟩, hserves hno⟩
    · exact .inr ⟨f, d₂, hrun, hprepared h₂, hserves hno⟩
  | unforced handle f d₁ d₂ d₃ es' hopen happend hsync h₃ hes' hno =>
    have hrun : Spool.replace d name bs = (.error f, d₃) := by
      simp only [Spool.replace, hopen, happend, hsync]
    rcases hes' with rfl | ⟨-, mode, rfl⟩
    · exact .inr ⟨f, d₃, hrun, ⟨_, h₃, hgrown, rfl, rfl⟩, hserves hno⟩
    · exact .inr ⟨f, d₃, hrun, hprepared h₃, hserves hno⟩
  | filled handle d₁ d₂ d₃ mode hopen happend hsync h₃ hfit hw =>
    -- the prepared file is there, and the event file still stands beside it
    have hne : name ≠ tempName name := by
      intro heq
      have hnot := hn.not_isEventFile
      rw [← heq, hevent] at hnot
      contradiction
    have hdest : IsWritable (Named.insert (tempName name)
        (.file ((if true then [] else contentsOf es (tempName name)) ++ bs) mode) es) name := by
      refine .inr ⟨c, mode₀, ?_⟩
      rw [Named.get?_insert, if_neg hne, hfile]
    rcases h₃.rename hn.isEntryName (Spool.isEntryName_of_isEventFile hevent)
      (Named.get?_insert_self _ _ _) hdest with ⟨d₄, hrename, h₄⟩ | ⟨f, d₄, hrename, h₄, hno⟩
    · refine .inl ⟨d₄, ?_, ?_⟩
      · simp only [Spool.replace, hopen, happend, hsync, hrename]
      · have hhoused := insert_event h₄ ((hes.ordered.insert _ _).erase _)
          ((hgrown.insert _ _ _).erase _) hevent
        rw [Spool.files_erase_of_not hn.not_isEventFile,
          Spool.files_insert_of_not hn.not_isEventFile,
          Spool.lettersIn_erase_of_ne (Spool.ne_deadLetters_tempName name),
          Spool.lettersIn_insert_of_ne (Spool.ne_deadLetters_tempName name), if_pos rfl,
          List.nil_append] at hhoused
        exact hhoused
    · refine .inr ⟨f, d₄, ?_, hprepared h₄, fun hs => hno ⟨hs.1.willing, hs.2.2, hs.2.1⟩⟩
      simp only [Spool.replace, hopen, happend, hsync, hrename]

end Disk.Houses

end AuditRelay
