import AuditRelay.Proofs.Store.Readers

/-!
# AuditRelay.Proofs.Store.SoleReader — one reader of a store in memory

A store in memory whose reader resolves each batch before it reads the next one, while anybody
writes at any time. The store is then a queue with a bound: it has the events that were acknowledged
and are in no committed batch, in the order of the writes, and it refuses an event exactly when it
has as many as it may hold (`bounded_queue_exact`).

A commit only knows how many events the batch had. The invariant is `Shelf.Queued`: the batch that
the reader holds is what the store begins with, and what follows has been written since.
-/

namespace AuditRelay

namespace MemoryStore

variable {p : MemoryParameters} {r : Registry} {m : MemoryStore}

/-- A new store is empty, and there is room in it. -/
theorem of_create (h : (create p r).1 = .ok m) :
    m.limit = p.maxEvents.getD defaultLimit ∧ 0 < m.limit ∧ m.events = [] := by
  unfold create at h
  dsimp only at h
  split at h
  · cases h
  · rename_i hpos
    split at h
    · cases h
      exact ⟨rfl, Nat.pos_of_ne_zero hpos, rfl⟩
    · cases h

variable {s : MemoryStore}

theorem write_of_full (h : s.events.length = s.limit) (e : Event) :
    s.write e = (.error (.storeFull s.limit s.limit),
      { s with counters := s.counters.countError .writeFull }) := by
  rw [write, if_pos (Nat.le_of_eq h.symm), h]

theorem write_of_room (h : s.events.length < s.limit) (e : Event) :
    s.write e = (.ok (),
      { s with events := s.events ++ [e], counters := s.counters.countWrite }) := by
  rw [write, if_neg (Nat.not_le.mpr h)]

end MemoryStore

namespace Shelf

/-! ## One batch at a time -/

/-- A reader that never holds two batches, among any number of writers: the shelf, the batches that
have been committed, and the events that have been acknowledged since the last reading. -/
inductive SoleReader (m : MemoryStore) : Shelf → List Batch → List Event → Prop where
  | start : SoleReader m (.start m) [] []
  | accepted {x : Shelf} {done : List Batch} {since : List Event} (h : SoleReader m x done since)
      (e : Event) (hw : (x.store.write e).1 = .ok ()) :
      SoleReader m (x.write e) done (since ++ [e])
  | refused {x : Shelf} {done : List Batch} {since : List Event} (h : SoleReader m x done since)
      (e : Event) {f : Fault} (hw : (x.store.write e).1 = .error f) :
      SoleReader m (x.write e) done since
  | read {x : Shelf} {done : List Batch} {since : List Event} (h : SoleReader m x done since)
      (hfree : x.loans = []) : SoleReader m x.read done []
  | commit {x : Shelf} {done : List Batch} {since : List Event} (h : SoleReader m x done since)
      {l : Loan} (hl : l ∈ x.loans) : SoleReader m (x.commit l) (done ++ [l.batch]) since
  | giveUp {x : Shelf} {done : List Batch} {since : List Event} (h : SoleReader m x done since)
      {l : Loan} (hl : l ∈ x.loans) : SoleReader m (x.giveUp l) done since
  | refresh {x : Shelf} {done : List Batch} {since : List Event} (h : SoleReader m x done since) :
      SoleReader m { x with store := x.store.refreshGauges } done since

/-! ## What one step does -/

variable {x : Shelf} {e : Event} {l : Loan}

theorem write_of_ok (hw : (x.store.write e).1 = .ok ()) :
    x.write e =
      { x with
        store := (x.store.write e).2
        entries := x.entries ++ [(e, x.history.length)]
        history := x.history ++ [e] } := by
  unfold Shelf.write
  split
  · rename_i s heq
    rw [heq]
  · rename_i f s heq
    rw [heq] at hw
    cases hw

theorem write_of_error {f : Fault} (hw : (x.store.write e).1 = .error f) :
    x.write e = { x with store := (x.store.write e).2 } := by
  unfold Shelf.write
  split
  · rename_i s heq
    rw [heq] at hw
    cases hw
  · rename_i f s heq
    rw [heq]

theorem read_of_none (hn : x.store.nextBatch.1 = none) :
    x.read = { x with store := x.store.nextBatch.2 } := by
  unfold Shelf.read
  split
  · rename_i b s heq
    rw [heq] at hn
    cases hn
  · rename_i s heq
    rw [heq]

theorem read_of_some {b : Batch} (hn : x.store.nextBatch.1 = some b) :
    x.read =
      { x with
        store := x.store.nextBatch.2
        loans := x.loans ++ [⟨b, x.entries⟩] } := by
  unfold Shelf.read
  split
  · rename_i b' s heq
    rw [heq] at hn
    cases hn
    rw [heq]
  · rename_i s heq
    rw [heq] at hn
    cases hn

theorem commit_of_token {count : Nat} (ht : l.batch.token = .oldest count) :
    x.commit l =
      { x with
        store := x.store.commit count
        entries := x.entries.drop count
        loans := x.loans.erase l } := by
  rw [Shelf.commit, ht]

/-! ## What is kept -/

/-- What a store for so many events keeps to as long as one batch is read at a time. -/
structure Queued (limit : Nat) (x : Shelf) (done : List Batch) (since : List Event) : Prop where
  acknowledged : x.history = done.flatMap Batch.events ++ x.store.events
  capacity : x.store.limit = limit
  bounded : x.store.events.length ≤ limit
  /-- The batch that is held is what the store begins with. -/
  held : ∀ l ∈ x.loans, x.loans = [l] ∧ l.batch.token = .oldest l.batch.events.length ∧
    x.store.events = l.batch.events ++ since

variable {limit : Nat} {done : List Batch} {since : List Event}

theorem queued_start {m : MemoryStore} (hempty : m.events = []) :
    Queued m.limit (.start m) [] [] := by
  constructor
  · rfl
  · rfl
  · show m.events.length ≤ m.limit
    rw [hempty]
    exact Nat.zero_le m.limit
  · intro l hl
    exact absurd hl List.not_mem_nil

theorem Queued.accepted (h : Queued limit x done since) (hw : (x.store.write e).1 = .ok ()) :
    Queued limit (x.write e) done (since ++ [e]) := by
  have hevents : (x.store.write e).2.events = x.store.events ++ [e] := by
    rcases x.store.write_cases e with ⟨-, hs⟩ | ⟨f, hf, -⟩
    · exact hs
    · rw [hw] at hf
      cases hf
  have hlimit := x.store.limit_write e
  rw [write_of_ok hw]
  constructor
  · show x.history ++ [e] = done.flatMap Batch.events ++ (x.store.write e).2.events
    rw [hevents, h.acknowledged, List.append_assoc]
  · exact hlimit.trans h.capacity
  · have hbounded := h.bounded
    rw [← h.capacity] at hbounded ⊢
    exact MemoryStore.length_write_le hbounded
  · intro l hl
    obtain ⟨hone, htoken, hbegins⟩ := h.held l hl
    refine ⟨hone, htoken, ?_⟩
    show (x.store.write e).2.events = l.batch.events ++ (since ++ [e])
    rw [hevents, hbegins, List.append_assoc]

theorem Queued.refused (h : Queued limit x done since) {f : Fault}
    (hw : (x.store.write e).1 = .error f) : Queued limit (x.write e) done since := by
  have hevents : (x.store.write e).2.events = x.store.events := by
    rcases x.store.write_cases e with ⟨hr, -⟩ | ⟨f, -, -, hs⟩
    · rw [hw] at hr
      cases hr
    · exact hs
  rw [write_of_error hw]
  constructor
  · exact h.acknowledged.trans (congrArg _ hevents.symm)
  · exact (x.store.limit_write e).trans h.capacity
  · show (x.store.write e).2.events.length ≤ limit
    rw [hevents]
    exact h.bounded
  · intro l hl
    obtain ⟨hone, htoken, hbegins⟩ := h.held l hl
    exact ⟨hone, htoken, hevents.trans hbegins⟩

theorem Queued.read (h : Queued limit x done since) (hfree : x.loans = []) :
    Queued limit x.read done [] := by
  by_cases hempty : x.store.events = []
  · have hnone := MemoryStore.nextBatch_of_nil hempty
    rw [read_of_none (congrArg Prod.fst hnone), hnone]
    refine ⟨h.acknowledged, h.capacity, h.bounded, ?_⟩
    intro l hl
    rw [hfree] at hl
    exact absurd hl List.not_mem_nil
  · have hsome := MemoryStore.nextBatch_of_ne_nil hempty
    rw [read_of_some (congrArg Prod.fst hsome), hsome]
    refine ⟨h.acknowledged, h.capacity, h.bounded, ?_⟩
    intro l hl
    -- the batch is the whole store
    rw [hfree, List.nil_append] at hl ⊢
    obtain rfl := List.mem_singleton.mp hl
    exact ⟨rfl, rfl, (List.append_nil _).symm⟩

/-- As many events leave as the batch has, and they are those of the batch. -/
theorem Queued.events_commit (h : Queued limit x done since) (hl : l ∈ x.loans) :
    (x.commit l).store.events = since := by
  obtain ⟨-, htoken, hbegins⟩ := h.held l hl
  rw [commit_of_token htoken]
  show x.store.events.drop l.batch.events.length = since
  rw [hbegins, List.drop_left]

theorem Queued.loans_erase (h : Queued limit x done since) (hl : l ∈ x.loans) :
    x.loans.erase l = [] := by
  obtain ⟨hone, -⟩ := h.held l hl
  rw [hone, List.erase_cons_head]

theorem Queued.commit (h : Queued limit x done since) (hl : l ∈ x.loans) :
    Queued limit (x.commit l) (done ++ [l.batch]) since := by
  have hleft := h.events_commit hl
  have hnone := h.loans_erase hl
  obtain ⟨-, htoken, hbegins⟩ := h.held l hl
  have hlength := h.bounded
  rw [hbegins, List.length_append] at hlength
  rw [commit_of_token htoken] at hleft ⊢
  constructor
  · show x.history = (done ++ [l.batch]).flatMap Batch.events ++ (x.store.commit _).events
    rw [hleft, h.acknowledged, hbegins, List.flatMap_append, List.flatMap_singleton,
      List.append_assoc]
  · exact h.capacity
  · show (x.store.commit _).events.length ≤ limit
    rw [hleft]
    omega
  · intro l' hl'
    have hl' : l' ∈ x.loans.erase l := hl'
    rw [hnone] at hl'
    exact absurd hl' List.not_mem_nil

theorem Queued.giveUp (h : Queued limit x done since) (hl : l ∈ x.loans) :
    Queued limit (x.giveUp l) done since := by
  have hnone := h.loans_erase hl
  refine ⟨h.acknowledged, h.capacity, h.bounded, ?_⟩
  intro l' hl'
  have hl' : l' ∈ x.loans.erase l := hl'
  rw [hnone] at hl'
  exact absurd hl' List.not_mem_nil

theorem SoleReader.queued {m : MemoryStore} (hempty : m.events = [])
    (hr : SoleReader m x done since) : Queued m.limit x done since := by
  induction hr with
  | start => exact queued_start hempty
  | accepted _ e hw ih => exact ih.accepted hw
  | refused _ e hw ih => exact ih.refused hw
  | read _ hfree ih => exact ih.read hfree
  | commit _ hl ih => exact ih.commit hl
  | giveUp _ hl ih => exact ih.giveUp hl
  | refresh _ ih => exact ⟨ih.acknowledged, ih.capacity, ih.bounded, ih.held⟩

end Shelf

/-- A store in memory of which one batch is out at a time, after any run. It has the acknowledged
events that are in no committed batch, in the order of the writes, and no more than its limit. A write
is refused exactly when there are so many, and appends otherwise; a reading finds nothing exactly if
there is nothing, and everything otherwise; and a commit leaves what was written after its batch had
been read. -/
theorem bounded_queue_exact {p : MemoryParameters} {r : Registry} {m : MemoryStore}
    (hm : (MemoryStore.create p r).1 = .ok m) {x : Shelf} {done : List Batch} {since : List Event}
    (hr : Shelf.SoleReader m x done since) :
    (m.limit = p.maxEvents.getD MemoryStore.defaultLimit ∧ x.store.limit = m.limit ∧ 0 < m.limit) ∧
    x.history = done.flatMap Batch.events ++ x.store.events ∧
    x.store.events.length ≤ m.limit ∧
    (∀ e, x.store.events.length = m.limit →
      x.store.write e = (.error (.storeFull m.limit m.limit),
        { x.store with counters := x.store.counters.countError .writeFull })) ∧
    (∀ e, x.store.events.length ≠ m.limit →
      (x.store.write e).1 = .ok () ∧ (x.store.write e).2.events = x.store.events ++ [e]) ∧
    (x.store.nextBatch.1 = none ↔ x.store.events = []) ∧
    (∀ b, x.store.nextBatch.1 = some b → b.events = x.store.events) ∧
    x.store.nextBatch.2.events = x.store.events ∧
    (∀ l ∈ x.loans, x.loans = [l] ∧ x.store.events = l.batch.events ++ since ∧
      (x.commit l).store.events = since ∧ (x.giveUp l).store.events = x.store.events) := by
  obtain ⟨hdefault, hpos, hempty⟩ := MemoryStore.of_create hm
  have hq := hr.queued hempty
  obtain ⟨hsame, hbatch⟩ := x.store.nextBatch_cases
  refine ⟨⟨hdefault, hq.capacity, hpos⟩, hq.acknowledged, hq.bounded, ?_, ?_, ?_, ?_, hsame, ?_⟩
  · intro e hfull
    rw [← hq.capacity] at hfull ⊢
    exact MemoryStore.write_of_full hfull e
  · intro e hroom
    have hlt : x.store.events.length < x.store.limit := by
      rw [hq.capacity]
      exact Nat.lt_of_le_of_ne hq.bounded hroom
    rw [MemoryStore.write_of_room hlt e]
    exact ⟨rfl, rfl⟩
  · constructor
    · intro hnone
      by_contra hsome
      rw [MemoryStore.nextBatch_of_ne_nil hsome] at hnone
      cases hnone
    · intro hnil
      rw [MemoryStore.nextBatch_of_nil hnil]
  · intro b hb
    rcases hbatch with hnone | hsome
    · rw [hnone] at hb
      cases hb
    · rw [hsome] at hb
      cases hb
      rfl
  · intro l hl
    obtain ⟨hone, -, hbegins⟩ := hq.held l hl
    exact ⟨hone, hbegins, hq.events_commit hl, rfl⟩

namespace Shelf

/-- The batch of the first two events. -/
def firstTwo : Loan :=
  ⟨⟨[.new "a", .new "b"], .oldest 2⟩, [(.new "a", 0), (.new "b", 1)]⟩

/-- Two events have been read, a third one has filled the store, and a fourth one has been refused. -/
def filled : Shelf :=
  ((((empty 3).write (.new "a")).write (.new "b")).read.write (.new "c")).write (.new "d")

theorem soleReader_filled : SoleReader ⟨3, [], .zero false⟩ filled [] [.new "c"] := by
  have htwo : SoleReader ⟨3, [], .zero false⟩ (((empty 3).write (.new "a")).write (.new "b")) []
      [.new "a", .new "b"] :=
    (SoleReader.start.accepted (.new "a") rfl).accepted (.new "b") rfl
  have hthree := (htwo.read rfl).accepted (.new "c") rfl
  exact hthree.refused (.new "d") rfl

end Shelf

/-- The commit of the first two events leaves the third one, and then there is room again. -/
theorem bounded_queue_exact_filled :
    (MemoryStore.create ⟨some 3⟩ []).1 = .ok ⟨3, [], .zero false⟩ ∧
    Shelf.SoleReader ⟨3, [], .zero false⟩ Shelf.filled [] [.new "c"] ∧
    (Shelf.filled.store.write (.new "d")).1 = .error (.storeFull 3 3) ∧
    (Shelf.filled.commit Shelf.firstTwo).store.events = [.new "c"] ∧
    ((Shelf.filled.commit Shelf.firstTwo).store.write (.new "d")).1 = .ok () := by
  have hcreate : (MemoryStore.create ⟨some 3⟩ []).1 = .ok ⟨3, [], .zero false⟩ := by decide
  have hheld : Shelf.firstTwo ∈ Shelf.filled.loans := by decide
  have hfull : Shelf.filled.store.events.length = 3 := by decide
  have hbefore := bounded_queue_exact hcreate Shelf.soleReader_filled
  obtain ⟨-, -, -, hrefused, -, -, -, -, hcommit⟩ := hbefore
  have hleft := (hcommit _ hheld).2.2.1
  have hafter := bounded_queue_exact hcreate (Shelf.soleReader_filled.commit hheld)
  obtain ⟨-, -, -, -, hroom, -⟩ := hafter
  refine ⟨hcreate, Shelf.soleReader_filled, ?_, hleft, ?_⟩
  · rw [hrefused _ hfull]
  · refine (hroom (.new "d") ?_).1
    rw [hleft]
    decide

end AuditRelay
