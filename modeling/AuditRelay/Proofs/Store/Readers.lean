import AuditRelay.Store.Memory
import Mathlib.Data.List.Nodup
import Mathlib.Logic.Relation

/-!
# AuditRelay.Proofs.Store.Readers — several readers of one store in memory

A batch is a copy of the whole store, and its commit takes as many entries off the front as it has.
That these are the entries of the batch is clear as long as a batch is resolved before the next one
is read. With several readers one of them may commit what another one has read too: then the second
commit takes out entries that came later, and that nobody has read.

`Shelf` is a store with the entries that have ever been in it, numbered in the order in which they
came, and with the batches that its readers hold. Every entry that leaves is taken out by a commit,
and a commit takes out entries of its own batch only exactly if nothing of that batch has left before
it, or nothing but that batch is left (`commit_takes_own_iff`).
-/

namespace AuditRelay

/-! ## What a store in memory does -/

namespace MemoryStore

/-- A write either appends the event or finds the store full and leaves the events alone. -/
theorem write_cases (s : MemoryStore) (e : Event) :
    ((s.write e).1 = .ok () ∧ (s.write e).2.events = s.events ++ [e]) ∨
    (∃ f, (s.write e).1 = .error f ∧ f.isStoreFull = true ∧ (s.write e).2.events = s.events) := by
  by_cases hf : s.limit ≤ s.events.length
  · refine .inr ⟨.storeFull s.events.length s.limit, ?_⟩
    simp [write, hf, Fault.isStoreFull]
  · exact .inl (by simp [write, hf])

/-- A batch is the whole store, and reading leaves the events alone. -/
theorem nextBatch_cases (s : MemoryStore) :
    s.nextBatch.2.events = s.events ∧
    (s.nextBatch.1 = none ∨ s.nextBatch.1 = some ⟨s.events, .oldest s.events.length⟩) := by
  by_cases he : s.events.isEmpty = true
  · exact ⟨by simp [nextBatch, he], .inl (by simp [nextBatch, he])⟩
  · exact ⟨by simp [nextBatch, he], .inr (by simp [nextBatch, he])⟩

variable {s : MemoryStore} {e : Event}

theorem limit_write (s : MemoryStore) (e : Event) : (s.write e).2.limit = s.limit := by
  unfold write
  split
  · rfl
  · rfl

/-- A write fails only if the store is full. -/
theorem le_length_of_write {f : Fault} (h : (s.write e).1 = .error f) :
    s.limit ≤ s.events.length := by
  unfold write at h
  split at h
  · assumption
  · cases h

theorem length_write_le (h : s.events.length ≤ s.limit) :
    (s.write e).2.events.length ≤ s.limit := by
  unfold write
  split
  · exact h
  · rename_i hroom
    rw [List.length_append, List.length_singleton]
    omega

theorem nextBatch_of_nil (h : s.events = []) : s.nextBatch = (none, s) := by
  rw [nextBatch, if_pos (List.isEmpty_iff.mpr h)]

theorem nextBatch_of_ne_nil (h : s.events ≠ []) :
    s.nextBatch = (some ⟨s.events, .oldest s.events.length⟩,
      { s with counters := s.counters.countReads s.events.length }) := by
  rw [nextBatch, if_neg]
  rw [List.isEmpty_iff]
  exact h

theorem limit_nextBatch (s : MemoryStore) : s.nextBatch.2.limit = s.limit := by
  unfold nextBatch
  split
  · rfl
  · rfl

/-- There is no empty batch. -/
theorem events_ne_nil_of_nextBatch {b : Batch} (h : s.nextBatch.1 = some b) : b.events ≠ [] := by
  unfold nextBatch at h
  split at h
  · cases h
  · rename_i hne
    rw [← Option.some.inj h]
    intro hnil
    exact hne (List.isEmpty_iff.mpr hnil)

end MemoryStore

/-! ## A store with readers -/

/-- An event with the number of the write that brought it. -/
abbrev Entry : Type := Event × Nat

/-- A batch that a reader holds, with the entries that it contains. -/
structure Loan where
  batch : Batch
  entries : List Entry
  deriving DecidableEq, Repr

/-- A store in memory among its readers. -/
structure Shelf where
  store : MemoryStore
  /-- The entries that are in the store. -/
  entries : List Entry
  /-- The events that have ever been in the store, in the order in which they came. -/
  history : List Event
  /-- The batches that have been read and neither committed nor dropped. -/
  loans : List Loan
  deriving DecidableEq, Repr

namespace Shelf

/-- A store that nobody has read yet. -/
def start (m : MemoryStore) : Shelf :=
  ⟨m, m.events.zipIdx, m.events, []⟩

/-- Somebody writes an event. -/
def write (x : Shelf) (e : Event) : Shelf :=
  match x.store.write e with
  | (.ok (), s) =>
    { x with
      store := s
      entries := x.entries ++ [(e, x.history.length)]
      history := x.history ++ [e] }
  | (.error _, s) => { x with store := s }

/-- A reader reads a batch and holds it. -/
def read (x : Shelf) : Shelf :=
  match x.store.nextBatch with
  | (some b, s) => { x with store := s, loans := x.loans ++ [⟨b, x.entries⟩] }
  | (none, s) => { x with store := s }

/-- A reader commits the batch that it holds. -/
def commit (x : Shelf) (l : Loan) : Shelf :=
  match l.batch.token with
  | .oldest count =>
    { x with
      store := x.store.commit count
      entries := x.entries.drop count
      loans := x.loans.erase l }
  | _ => { x with loans := x.loans.erase l }

/-- A reader drops the batch that it holds. -/
def giveUp (x : Shelf) (l : Loan) : Shelf :=
  { x with loans := x.loans.erase l }

/-- What any of the writers and readers may do next. -/
inductive Step (x : Shelf) : Shelf → Prop where
  | write (e : Event) : Step x (x.write e)
  | read : Step x x.read
  | commit (l : Loan) (h : l ∈ x.loans) : Step x (x.commit l)
  | giveUp (l : Loan) (h : l ∈ x.loans) : Step x (x.giveUp l)
  | refresh : Step x { x with store := x.store.refreshGauges }

/-- Any number of writers and readers, in any order. -/
abbrev Reaches : Shelf → Shelf → Prop :=
  Relation.ReflTransGen Step

/-! ## Numbered entries -/

variable {history : List Event} {first count : Nat} {a : Entry}

/-- The number of an entry tells its place. -/
theorem number_of_mem (h : a ∈ (history.zipIdx.drop first).take count) :
    a.2 < first + count := by
  obtain ⟨i, hi, rfl⟩ := List.getElem_of_mem h
  have hcount : i < count := by
    rw [List.length_take] at hi
    omega
  have hnumber : ((history.zipIdx.drop first).take count)[i].2 = first + i := by simp
  rw [hnumber]
  exact Nat.add_lt_add_left hcount first

/-- No two entries have the same number. -/
theorem nodup_zipIdx_drop (history : List Event) (gone : Nat) :
    (history.zipIdx.drop gone).Nodup := by
  have hnumbers : (history.zipIdx.map Prod.snd).Nodup := by
    rw [List.zipIdx_map_snd]
    exact List.nodup_range'
  exact (hnumbers.of_map Prod.snd).sublist (List.drop_sublist gone _)

/-- What is gone when so many have been taken off the front is what they were. -/
theorem mem_take_iff {entries : List Entry} (hnodup : entries.Nodup) :
    a ∈ entries.take count ↔ a ∈ entries ∧ a ∉ entries.drop count := by
  constructor
  · intro ha
    refine ⟨List.mem_of_mem_take ha, ?_⟩
    exact List.disjoint_take_drop hnodup (Nat.le_refl count) ha
  · rintro ⟨ha, hnot⟩
    rw [← List.take_append_drop count entries] at ha
    rcases List.mem_append.mp ha with htaken | hleft
    · exact htaken
    · exact absurd hleft hnot

/-! ## What is kept -/

/-- A batch was the whole store when it was read, after `first` entries had left it. -/
structure Lent (history : List Event) (first : Nat) (l : Loan) : Prop where
  token : l.batch.token = .oldest l.entries.length
  events : l.batch.events = l.entries.map Prod.fst
  entries : l.entries = (history.zipIdx.drop first).take l.entries.length

/-- What a store among its readers keeps to when `gone` entries have left it. -/
structure Ordered (x : Shelf) (gone : Nat) : Prop where
  bounded : gone ≤ x.history.length
  store : x.store.events = x.entries.map Prod.fst
  entries : x.entries = x.history.zipIdx.drop gone
  loans : ∀ l ∈ x.loans, ∃ first, first ≤ gone ∧ Lent x.history first l

variable {x y : Shelf} {gone : Nat} {l : Loan}

theorem ordered_start (m : MemoryStore) : Ordered (start m) 0 := by
  constructor
  · exact Nat.zero_le _
  · exact (List.zipIdx_map_fst 0 m.events).symm
  · rfl
  · intro l hl
    exact absurd hl List.not_mem_nil

/-- What has been lent is not changed by what comes later. -/
theorem Lent.later (h : Lent history first l) (more : List Event) :
    Lent (history ++ more) first l := by
  constructor
  · exact h.token
  · exact h.events
  · have hlength : l.entries.length ≤ (history.zipIdx.drop first).length := by
      have hlen := congrArg List.length h.entries
      rw [List.length_take] at hlen
      omega
    rw [List.zipIdx_append, List.drop_append, List.take_append_of_le_length hlength]
    exact h.entries

/-- The entries of a batch have the numbers from its first one on. -/
theorem Lent.number (h : Lent history first l) (ha : a ∈ l.entries) :
    a.2 < first + l.entries.length := by
  rw [h.entries] at ha
  exact number_of_mem ha

theorem Ordered.write (h : Ordered x gone) (e : Event) : Ordered (x.write e) gone := by
  rcases hw : x.store.write e with ⟨r, s⟩
  have hcases := x.store.write_cases e
  rw [hw] at hcases
  rcases hcases with ⟨hr, hs⟩ | ⟨f, hr, hf, hs⟩
  · -- the entry has the next number
    obtain rfl : r = .ok () := hr
    have hx : x.write e =
        { x with
          store := s
          entries := x.entries ++ [(e, x.history.length)]
          history := x.history ++ [e] } := by
      rw [Shelf.write, hw]
    rw [hx]
    constructor
    · rw [List.length_append]
      exact Nat.le_add_right_of_le h.bounded
    · rw [List.map_append, ← h.store]
      exact hs
    · rw [h.entries, List.zipIdx_append, List.drop_append_of_le_length]
      · rw [Nat.zero_add]
        rfl
      · rw [List.length_zipIdx]
        exact h.bounded
    · intro l hl
      obtain ⟨first, hfirst, hlent⟩ := h.loans l hl
      exact ⟨first, hfirst, hlent.later [e]⟩
  · -- the store is full
    obtain rfl : r = .error f := hr
    have hx : x.write e = { x with store := s } := by rw [Shelf.write, hw]
    rw [hx]
    exact ⟨h.bounded, hs.trans h.store, h.entries, h.loans⟩

theorem Ordered.read (h : Ordered x gone) : Ordered x.read gone := by
  obtain ⟨hevents, hbatch⟩ := x.store.nextBatch_cases
  rcases hn : x.store.nextBatch with ⟨found, s⟩
  rw [hn] at hevents hbatch
  rcases hbatch with hnone | hsome
  · obtain rfl : found = none := hnone
    have hx : x.read = { x with store := s } := by rw [Shelf.read, hn]
    rw [hx]
    exact ⟨h.bounded, hevents.trans h.store, h.entries, h.loans⟩
  · obtain rfl : found = some ⟨x.store.events, .oldest x.store.events.length⟩ := hsome
    have hx : x.read =
        { x with
          store := s
          loans := x.loans ++
            [⟨⟨x.store.events, .oldest x.store.events.length⟩, x.entries⟩] } := by
      rw [Shelf.read, hn]
    rw [hx]
    refine ⟨h.bounded, hevents.trans h.store, h.entries, ?_⟩
    intro l hl
    rcases List.mem_append.mp hl with hold | hnew
    · exact h.loans l hold
    · -- the new batch has what is in the store
      obtain rfl := List.mem_singleton.mp hnew
      refine ⟨gone, Nat.le_refl gone, ?_, h.store, ?_⟩
      · rw [h.store, List.length_map]
      · rw [← h.entries, List.take_length]

/-- As many entries leave as the batch has. -/
theorem Ordered.commit_eq (h : Ordered x gone) (hl : l ∈ x.loans) :
    x.commit l =
      { x with
        store := x.store.commit l.entries.length
        entries := x.entries.drop l.entries.length
        loans := x.loans.erase l } := by
  obtain ⟨first, hfirst, hlent⟩ := h.loans l hl
  rw [Shelf.commit, hlent.token]

theorem Ordered.commit (h : Ordered x gone) (hl : l ∈ x.loans) :
    Ordered (x.commit l) (min (gone + l.entries.length) x.history.length) := by
  rw [h.commit_eq hl]
  constructor
  · exact Nat.min_le_right _ _
  · rw [List.map_drop, ← h.store]
    rfl
  · have hlength : x.history.zipIdx.length = x.history.length := List.length_zipIdx
    rw [h.entries, List.drop_drop, ← hlength, List.drop_eq_drop_min]
  · intro l' hl'
    obtain ⟨first, hfirst, hlent⟩ := h.loans l' (List.mem_of_mem_erase hl')
    have hbounded := h.bounded
    exact ⟨first, by omega, hlent⟩

theorem Ordered.step (h : Ordered x gone) (hs : Step x y) : ∃ gone', Ordered y gone' := by
  cases hs with
  | write e => exact ⟨gone, h.write e⟩
  | read => exact ⟨gone, h.read⟩
  | commit l hl => exact ⟨_, h.commit hl⟩
  | giveUp l hl =>
    refine ⟨gone, h.bounded, h.store, h.entries, ?_⟩
    intro l' hl'
    exact h.loans l' (List.mem_of_mem_erase hl')
  | refresh => exact ⟨gone, h.bounded, h.store, h.entries, h.loans⟩

theorem ordered_of_reaches {m : MemoryStore} (hr : Reaches (start m) x) :
    ∃ gone, Ordered x gone := by
  induction hr with
  | refl => exact ⟨0, ordered_start m⟩
  | tail _ hs ih =>
    obtain ⟨gone, h⟩ := ih
    exact h.step hs

/-! ## What a commit takes out -/

/-- Nothing but a commit takes an entry out. -/
theorem Step.takes (hs : Step x y) (ha : a ∈ x.entries) (hnot : a ∉ y.entries) :
    ∃ l ∈ x.loans, y = x.commit l := by
  cases hs with
  | write e =>
    have hstays : a ∈ (x.write e).entries := by
      rcases hw : x.store.write e with ⟨f | u, s⟩
      · rw [Shelf.write, hw]
        exact ha
      · rw [Shelf.write, hw]
        exact List.mem_append_left _ ha
    exact absurd hstays hnot
  | read =>
    have hstays : a ∈ x.read.entries := by
      rcases hn : x.store.nextBatch with ⟨_ | b, s⟩
      · rw [Shelf.read, hn]
        exact ha
      · rw [Shelf.read, hn]
        exact ha
    exact absurd hstays hnot
  | commit l hl => exact ⟨l, hl, rfl⟩
  | giveUp l hl => exact absurd ha hnot
  | refresh => exact absurd ha hnot

/-- A commit takes out entries of its batch only, exactly if the batch is still what the store begins
with or the store has nothing else. -/
theorem Ordered.takes_own_iff (h : Ordered x gone) (hl : l ∈ x.loans) :
    (∀ a ∈ x.entries, a ∉ (x.commit l).entries → a ∈ l.entries) ↔
      l.entries <+: x.entries ∨ ∀ a ∈ x.entries, a ∈ l.entries := by
  obtain ⟨first, hfirst, hlent⟩ := h.loans l hl
  have hnodup : x.entries.Nodup := by
    rw [h.entries]
    exact nodup_zipIdx_drop x.history gone
  have htaken : ∀ a, a ∈ x.entries.take l.entries.length ↔
      a ∈ x.entries ∧ a ∉ (x.commit l).entries := by
    intro a
    rw [h.commit_eq hl]
    exact mem_take_iff hnodup
  constructor
  · intro hown
    rcases Nat.eq_or_lt_of_le hfirst with hsame | hlater
    · -- nothing has left since the batch was read
      left
      rw [hlent.entries, hsame, ← h.entries]
      exact List.take_prefix _ _
    · rcases Nat.lt_or_ge l.entries.length x.entries.length with hmore | hfewer
      · -- the last entry that is taken out came after the batch
        rcases Nat.eq_zero_or_pos l.entries.length with hempty | hpos
        · left
          rw [List.length_eq_zero_iff.mp hempty]
          exact List.nil_prefix
        · exfalso
          have hlast : l.entries.length - 1 < x.entries.length := by omega
          have hmem : x.entries[l.entries.length - 1] ∈ x.entries.take l.entries.length := by
            rw [List.mem_take_iff_getElem]
            exact ⟨l.entries.length - 1, by omega, rfl⟩
          have hin := hown _ (List.getElem_mem hlast) ((htaken _).mp hmem).2
          have hnumber : x.entries[l.entries.length - 1].2 = gone + (l.entries.length - 1) := by
            simp [h.entries]
          have hbound := hlent.number hin
          omega
      · -- all entries are taken out
        right
        intro a ha
        rw [← List.take_of_length_le hfewer] at ha
        obtain ⟨hmem, hgone⟩ := (htaken a).mp ha
        exact hown a hmem hgone
  · rintro (hbegins | hall)
    · intro a ha hgone
      have hmem := (htaken a).mpr ⟨ha, hgone⟩
      rw [← List.prefix_iff_eq_take.mp hbegins] at hmem
      exact hmem
    · intro a ha hgone
      exact hall a ha

end Shelf

/-- Among any number of writers and readers of a store in memory an entry leaves only by the commit of
a batch. It is an entry of that very batch, for every entry that leaves, exactly if nothing of the
batch had left before or nothing but entries of the batch was left. -/
theorem commit_takes_own_iff (m : MemoryStore) {x : Shelf} (h : Shelf.Reaches (.start m) x) :
    (x.store.events = x.entries.map Prod.fst ∧ x.entries.Nodup) ∧
    (∀ y, Shelf.Step x y → ∀ a ∈ x.entries, a ∉ y.entries → ∃ l ∈ x.loans, y = x.commit l) ∧
    (∀ l ∈ x.loans, l.batch.events = l.entries.map Prod.fst ∧
      ((∀ a ∈ x.entries, a ∉ (x.commit l).entries → a ∈ l.entries) ↔
        l.entries <+: x.entries ∨ ∀ a ∈ x.entries, a ∈ l.entries)) := by
  obtain ⟨gone, hordered⟩ := Shelf.ordered_of_reaches h
  refine ⟨⟨hordered.store, ?_⟩, ?_, ?_⟩
  · rw [hordered.entries]
    exact Shelf.nodup_zipIdx_drop x.history gone
  · intro y hs a ha hnot
    exact hs.takes ha hnot
  · intro l hl
    obtain ⟨first, hfirst, hlent⟩ := hordered.loans l hl
    exact ⟨hlent.events, hordered.takes_own_iff hl⟩

namespace Shelf

/-- A store in memory with room for so many events, and nothing in it. -/
def empty (limit : Nat) : Shelf := start ⟨limit, [], .zero false⟩

/-- A batch of the first event alone. -/
def secondLoan : Loan := ⟨⟨[.new "a"], .oldest 1⟩, [(.new "a", 0)]⟩

/-- Two readers have read the one event that is there, the first has committed it, and another event
has been written. -/
def readTwice : Shelf :=
  (((empty 2).write (.new "a")).read.read.commit secondLoan).write (.new "b")

theorem reaches_readTwice : Reaches (empty 2) readTwice := by
  refine .head (.write (.new "a")) ?_
  refine .head .read ?_
  refine .head .read ?_
  refine .head (.commit secondLoan (by decide)) ?_
  exact .single (.write (.new "b"))

/-- One reader holds what it has read, and another event has been written. -/
def readOnce : Shelf := ((empty 2).write (.new "a")).read.write (.new "b")

theorem reaches_readOnce : Reaches (empty 2) readOnce := by
  refine .head (.write (.new "a")) ?_
  refine .head .read ?_
  exact .single (.write (.new "b"))

end Shelf

/-- The batch is still what the store begins with, so its commit takes out nothing else. -/
theorem commit_takes_own_iff_readOnce :
    Shelf.secondLoan ∈ Shelf.readOnce.loans ∧
    ∀ a ∈ Shelf.readOnce.entries, a ∉ (Shelf.readOnce.commit Shelf.secondLoan).entries →
      a ∈ Shelf.secondLoan.entries := by
  have hheld : Shelf.secondLoan ∈ Shelf.readOnce.loans := by decide
  have hiff := (commit_takes_own_iff _ Shelf.reaches_readOnce).2.2 _ hheld
  refine ⟨hheld, hiff.2.mpr ?_⟩
  left
  decide

/-- The second reader commits the batch that it has read, and takes out an event that came later and
that no reader has read. -/
theorem unread_entry_taken :
    Shelf.Reaches (.empty 2) Shelf.readTwice ∧
    Shelf.readTwice.loans = [Shelf.secondLoan] ∧
    Shelf.readTwice.store.events = [.new "b"] ∧
    (Shelf.readTwice.commit Shelf.secondLoan).store.events = [] ∧
    (.new "b", 1) ∈ Shelf.readTwice.entries ∧
    (.new "b", 1) ∉ (Shelf.readTwice.commit Shelf.secondLoan).entries ∧
    (.new "b", 1) ∉ Shelf.secondLoan.entries := by
  refine ⟨Shelf.reaches_readTwice, ?_⟩
  decide

end AuditRelay
