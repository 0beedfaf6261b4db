import AuditRelay.Proofs.Store.Attempts
import AuditRelay.Proofs.Store.Depot

/-!
# AuditRelay.Proofs.Store.FailureCounts — which failed calls of a spool are counted

A write or a commit that fails adds one error to the counters, of the kind that its answer names
(`Charged`); a read that fails adds one or more (`Counts`). Only if the directory cannot be listed, a
read fails and nothing is counted (`failed_calls_counted_iff`). This holds of every spool and every
disk, whatever the directory is like and whatever the host refuses.
-/

namespace AuditRelay

/-! ## The sum of the error counters -/

namespace StoreCounters

/-- The errors of all kinds together. -/
def errorTotal (c : StoreCounters) : Nat :=
  FailurePoint.all.foldr (fun op n => c.errorCount op + n) 0

theorem foldr_count_cons (op : FailurePoint) (ops kinds : List FailurePoint) :
    kinds.foldr (fun kind n => (op :: ops).count kind + n) 0 =
      kinds.foldr (fun kind n => ops.count kind + n) 0 + kinds.count op := by
  induction kinds with
  | nil => rfl
  | cons kind kinds ih =>
    rw [List.foldr_cons, List.foldr_cons, ih, List.count_cons, List.count_cons, Bool.beq_comm]
    omega

theorem errorTotal_eq_length (c : StoreCounters) : c.errorTotal = c.errors.length := by
  unfold errorTotal errorCount
  induction c.errors with
  | nil => rfl
  | cons op ops ih =>
    rw [foldr_count_cons, ih, FailurePoint.count_all, List.length_cons]

@[simp] theorem errorTotal_countError (c : StoreCounters) (op : FailurePoint) :
    (c.countError op).errorTotal = c.errorTotal + 1 := by
  simp only [errorTotal_eq_length, countError, List.length_cons]

@[simp] theorem errorTotal_countErrors (c : StoreCounters) (op : FailurePoint) (n : Nat) :
    (c.countErrors op n).errorTotal = c.errorTotal + n := by
  simp only [errorTotal_eq_length, countErrors, List.length_append, List.length_replicate]
  omega

end StoreCounters

/-- The counter of the failures that end with this fault. -/
def Fault.counter? : Fault → Option FailurePoint
  | .io (.counted op) _ => some op
  | .storeFull _ _ => some .writeFull
  | _ => none

namespace Spool

variable {α : Type} {s s₁ s' : Spool} {d : Disk}

/-! ## Writing and committing -/

/-- What a call does to the counters: nothing if it is answered, and otherwise it adds an error of the
kind that the answer names. Where no stamp is left there is no answer. -/
inductive Charged (c : StoreCounters) : Except Fault α → StoreCounters → Prop where
  | answered (a : α) : Charged c (.ok a) c
  | failed {f : Fault} {op : FailurePoint} (h : f.counter? = some op) :
      Charged c (.error f) (c.countError op)
  | exhausted : Charged c (.error .stampsExhausted) c

section

variable {β : Type} {c c' : StoreCounters}

theorem Charged.eq_of_ok {a : α} (h : Charged c (.ok a) c') : c' = c := by
  cases h
  rfl

/-- A failure is counted if there is an answer that tells of it. -/
theorem Charged.grown_iff {f : Fault} (h : Charged c (.error f : Except Fault α) c') :
    c'.writes = c.writes ∧ (c.errorTotal < c'.errorTotal ↔ f ≠ .stampsExhausted) := by
  cases h with
  | failed h =>
    refine ⟨rfl, iff_of_true ?_ ?_⟩
    · rw [StoreCounters.errorTotal_countError]
      exact Nat.lt_succ_self _
    · rintro rfl
      cases h
  | exhausted => exact ⟨rfl, iff_of_false (lt_irrefl _) fun h => h rfl⟩

/-- What a failure does to the counters does not depend on the answer that there might have been. -/
theorem Charged.error {f : Fault} (h : Charged c (.error f : Except Fault α) c') :
    Charged c (.error f : Except Fault β) c' := by
  cases h with
  | failed h => exact .failed h
  | exhausted => exact .exhausted

end

theorem failed_charged (s : Spool) (op : FailurePoint) (cause : SystemFault) (d : Disk) :
    Charged s.counters (s.failed (α := α) op cause d).1 (s.failed (α := α) op cause d).2.1.counters :=
  .failed rfl

theorem newEventFile_charged (s : Spool) (d : Disk) :
    Charged s.counters (s.newEventFile d).1 (s.newEventFile d).2.1.counters := by
  rw [newEventFile, newStamp]
  simp only
  split
  · exact .answered _
  · exact .exhausted

theorem target_charged (s : Spool) (d : Disk) :
    Charged s.counters (s.target d).1 (s.target d).2.1.counters := by
  rw [target]
  split
  · exact newEventFile_charged s d
  · split
    · split
      · exact .answered _
      · exact newEventFile_charged s _
    · exact newEventFile_charged s _
    · exact failed_charged s _ _ _

theorem writeLine_charged (s : Spool) (d : Disk) (name : String) (line : Octets) :
    Charged s.counters (s.writeLine d name line).1 (s.writeLine d name line).2.1.counters := by
  rw [writeLine]
  split
  · exact failed_charged s _ _ _
  · split
    · exact failed_charged s _ _ _
    · split
      · exact failed_charged s _ _ _
      · split
        · exact failed_charged s _ _ _
        · exact .answered _

theorem removeFile_charged (s : Spool) (d : Disk) (name : String) :
    Charged s.counters (s.removeFile d name).1 (s.removeFile d name).2.1.counters := by
  rw [removeFile]
  simp only
  split
  · exact failed_charged s _ _ _
  · exact .answered _

theorem removeFile_ne_exhausted (s : Spool) (d : Disk) (name : String) :
    (s.removeFile d name).1 ≠ .error .stampsExhausted := by
  rw [removeFile]
  simp only
  split
  · intro h
    cases h
  · intro h
    cases h

/-- An answered write is counted; one that fails is charged. -/
theorem write_charged (s : Spool) (d : Disk) (e : Event) :
    ((s.write d e).1 = .ok () ∧ (s.write d e).2.1.counters = s.counters.countWrite) ∨
    ((∃ f, (s.write d e).1 = .error f) ∧
      Charged s.counters (s.write d e).1 (s.write d e).2.1.counters) := by
  have htarget := target_charged s d
  rw [write]
  simp only
  split
  · rename_i hrun
    rw [hrun] at htarget
    exact .inr ⟨⟨_, rfl⟩, htarget.error⟩
  · rename_i name s₁ d₁ hrun
    rw [hrun] at htarget
    -- a file has been found, and nothing is counted yet
    have hsame : s₁.counters = s.counters := htarget.eq_of_ok
    split
    · refine .inr ⟨⟨_, rfl⟩, ?_⟩
      simp only
      rw [hsame]
      exact .failed rfl
    · have hline := writeLine_charged { s₁ with current := some name } d₁ name
        (e.written ++ [lineFeed])
      split
      · rename_i hrun
        rw [hrun, hsame] at hline
        exact .inr ⟨⟨_, rfl⟩, hline⟩
      · rename_i s₂ d₂ hrun
        rw [hrun, hsame] at hline
        refine .inl ⟨rfl, ?_⟩
        simp only
        rw [hline.eq_of_ok]

/-! ## Reading -/

/-- So many errors, or more, are counted on the way from one spool to the other, and no write. -/
structure Counts (s s' : Spool) (n : Nat) : Prop where
  writes : s'.counters.writes = s.counters.writes
  errors : s.counters.errorTotal + n ≤ s'.counters.errorTotal

theorem Counts.trans {n m : Nat} (h : Counts s s₁ n) (h' : Counts s₁ s' m) :
    Counts s s' (n + m) :=
  ⟨h'.writes.trans h.writes, by have := h.errors; have := h'.errors; omega⟩

theorem Counts.fewer {n m : Nat} (h : Counts s s' n) (hm : m ≤ n) : Counts s s' m :=
  ⟨h.writes, (Nat.add_le_add_left hm _).trans h.errors⟩

theorem counts_of_eq (h : s'.counters = s.counters) : Counts s s' 0 := by
  constructor
  · rw [h]
  · rw [h, Nat.add_zero]

/-- A failure is to be counted. -/
def due : Except Fault α → Nat
  | .ok _ => 0
  | .error _ => 1

theorem Charged.counts {r : Except Fault α} (h : Charged s.counters r s'.counters)
    (hne : r ≠ .error .stampsExhausted) : Counts s s' (due r) := by
  generalize hc : s'.counters = c at h
  cases h with
  | answered _ => exact counts_of_eq hc
  | failed _ =>
    constructor
    · rw [hc]
      rfl
    · rw [hc, StoreCounters.errorTotal_countError, due]
  | exhausted => exact absurd rfl hne

theorem newStamp_counters (s : Spool) (d : Disk) : (s.newStamp d).2.1.counters = s.counters := by
  rw [newStamp]
  simp only
  split <;> rfl

theorem setAside_counts (s : Spool) (d : Disk) (stamp : Nat) (name : String)
    (letters : List DeadLetter) (size : Nat) (kept : Octets) :
    Counts s (s.setAside d stamp name letters size kept).1 0 := by
  rw [setAside]
  split
  · refine ⟨rfl, ?_⟩
    rw [StoreCounters.errorTotal_countError]
    omega
  · simp only
    split
    · refine ⟨rfl, ?_⟩
      simp only [StoreCounters.errorTotal_countErrors]
      omega
    · refine ⟨rfl, ?_⟩
      simp only [StoreCounters.errorTotal_countError, StoreCounters.errorTotal_countErrors]
      omega

theorem counted_counts {n : Nat} (s : Spool) (h : 0 < n) : Counts s (s.counted n) 1 := by
  refine ⟨rfl, ?_⟩
  rw [counted, StoreCounters.errorTotal_countErrors]
  omega

theorem readFile_counts (s : Spool) (d : Disk) (name : String) :
    Counts s (s.readFile d name).2.1 (due (s.readFile d name).1) := by
  rw [readFile]
  split
  · exact (failed_charged s _ _ _).counts (by simp [failed])
  · split
    · exact (failed_charged s _ _ _).counts (by simp [failed])
    · rename_i contents d₁ _
      simp only
      split
      · exact counts_of_eq rfl
      · rename_i hdamaged
        -- its damaged lines are counted first, and there are some
        have hsome : 0 < (sift (lines contents)).damaged.length :=
          List.length_pos_iff.mpr fun hnil => hdamaged (List.isEmpty_iff.mpr hnil)
        have hcounted := s.counted_counts hsome
        have hstamp := newStamp_counters (s.counted (sift (lines contents)).damaged.length)
          (letters d₁ name (sift (lines contents)).damaged).2
        split
        · rename_i hrun
          rw [counted, hrun] at hstamp
          exact hcounted.trans (counts_of_eq hstamp)
        · rename_i hrun
          rw [counted, hrun] at hstamp
          have hbefore := hcounted.trans (counts_of_eq hstamp)
          exact (hbefore.trans (setAside_counts ..)).fewer (Nat.zero_le _)

/-- A failure comes from one of the files, and is counted there. -/
theorem readFirst_counts (s : Spool) (d : Disk) (names : List String) :
    Counts s (s.readFirst d names).2.1 (due (s.readFirst d names).1) := by
  induction names generalizing s d with
  | nil => exact counts_of_eq rfl
  | cons name names ih =>
    have hread := (counts_of_eq (counters_released s name)).trans
      (readFile_counts (s.released name) d name)
    have hreleased : (if s.current = some name then { s with current := none } else s) =
        s.released name := rfl
    rw [readFirst, hreleased]
    rw [Nat.zero_add] at hread
    rcases hrun : (s.released name).readFile d name with ⟨f | _ | ⟨e, es⟩, s₁, d₁⟩
    · rw [hrun] at hread
      exact hread
    · rw [hrun] at hread
      -- the file holds no event, and is removed
      have hremove := hread.trans
        ((removeFile_charged s₁ d₁ name).counts (removeFile_ne_exhausted s₁ d₁ name))
      rw [due, Nat.zero_add] at hremove
      rcases hrun' : s₁.removeFile d₁ name with ⟨f | u, s₂, d₂⟩
      · rw [hrun'] at hremove
        simp only [hrun']
        exact hremove
      · rw [hrun'] at hremove
        have hrest := hremove.trans (ih s₂ d₂)
        rw [due, Nat.zero_add] at hrest
        simp only [hrun']
        exact hrest
    · rw [hrun] at hread
      exact ⟨hread.writes, hread.errors⟩

theorem nextBatch_eq (s : Spool) (d : Disk) :
    s.nextBatch d =
      match d.list with
      | (.ok es, d) => s.readFirst d (eventFiles es)
      | (.error cause, d) => (.error (.io .listDirectory cause), s, d) := by
  rw [nextBatch, listFiles]
  rcases d.list with ⟨cause | es, d₁⟩ <;> rfl

theorem nextBatch_of_unlisted {cause : SystemFault} (s : Spool) (h : d.list.1 = .error cause) :
    (s.nextBatch d).1 = .error (.io .listDirectory cause) ∧ (s.nextBatch d).2.1 = s := by
  rw [nextBatch_eq]
  rcases hlist : d.list with ⟨cause' | es, d₁⟩
  · rw [hlist] at h
    obtain rfl := Except.error.inj h
    exact ⟨rfl, rfl⟩
  · rw [hlist] at h
    cases h

theorem nextBatch_counts {es : Entries} (s : Spool) (h : d.list.1 = .ok es) :
    Counts s (s.nextBatch d).2.1 (due (s.nextBatch d).1) := by
  rw [nextBatch_eq]
  rcases hlist : d.list with ⟨cause | es', d₁⟩
  · rw [hlist] at h
    cases h
  · exact readFirst_counts s d₁ _

end Spool

/-- A write that is answered counts as one and adds no error. A call that fails counts no write, and
adds to the errors: every write (one that has no stamp to give does not answer at all), every commit,
and every read of a directory that can be listed, but no other read. -/
theorem failed_calls_counted_iff (s : Spool) (d : Disk) :
    (∀ e, (s.write d e).1 = .ok () →
      (s.write d e).2.1.counters.writes = s.counters.writes + 1 ∧
        ∀ op, (s.write d e).2.1.counters.errorCount op = s.counters.errorCount op) ∧
    (∀ e f, (s.write d e).1 = .error f →
      (s.write d e).2.1.counters.writes = s.counters.writes ∧
        (s.counters.errorTotal < (s.write d e).2.1.counters.errorTotal ↔ f ≠ .stampsExhausted)) ∧
    (∀ f, (s.nextBatch d).1 = .error f →
      (s.nextBatch d).2.1.counters.writes = s.counters.writes ∧
        (s.counters.errorTotal < (s.nextBatch d).2.1.counters.errorTotal ↔
          ∃ es, d.list.1 = .ok es)) ∧
    (∀ name f, (s.commit d name).1 = .error f →
      (s.commit d name).2.1.counters.writes = s.counters.writes ∧
        s.counters.errorTotal < (s.commit d name).2.1.counters.errorTotal) := by
  refine ⟨?_, ?_, ?_, ?_⟩
  · intro e hok
    rcases s.write_charged d e with ⟨-, hcounters⟩ | ⟨⟨f, hf⟩, -⟩
    · rw [hcounters]
      exact ⟨rfl, fun _ => rfl⟩
    · rw [hok] at hf
      cases hf
  · intro e f hf
    rcases s.write_charged d e with ⟨hok, -⟩ | ⟨-, hcharged⟩
    · rw [hf] at hok
      cases hok
    · rw [hf] at hcharged
      exact hcharged.grown_iff
  · intro f hf
    cases hlist : d.list.1 with
    | error cause =>
      obtain ⟨-, hsame⟩ := s.nextBatch_of_unlisted hlist
      rw [hsame]
      refine ⟨rfl, iff_of_false (lt_irrefl _) ?_⟩
      rintro ⟨es, hes⟩
      cases hes
    | ok es =>
      have hcounts := s.nextBatch_counts hlist
      rw [hf] at hcounts
      exact ⟨hcounts.writes, iff_of_true hcounts.errors ⟨es, rfl⟩⟩
  · intro name f hf
    have hne := s.removeFile_ne_exhausted d name
    have hcharged := s.removeFile_charged d name
    rw [Spool.commit] at hf ⊢
    rw [hf] at hcharged hne
    obtain ⟨hwrites, hgrown⟩ := hcharged.grown_iff
    exact ⟨hwrites, hgrown.mpr fun h => hne (congrArg _ h)⟩

/-! ## A host that refuses a call, and a directory that is gone -/

/-- A directory with these entries, on a host that refuses the second call. -/
def Disk.balking (es : Entries) : Disk :=
  { Disk.holding es with
    host := ⟨fun k => if k = 1 then some ⟨.noSpace, 0⟩ else none, fun _ => 0, 4095⟩ }

/-- The directory is not there any more. -/
def Disk.gone : Disk :=
  .ofPath (.directory [] Disk.privateDirectory) "q" (Disk.holding []).host 0 0

theorem Depot.fresh_nil_isSome : (Depot.fresh []).spool.isSome = true := by decide +kernel

/-- A spool that has just been opened in an empty directory. -/
def Spool.started : Spool := (Depot.fresh []).spool.get Depot.fresh_nil_isSome

/-- One event file. -/
def Disk.unread : Entries :=
  [(Spool.fileName Spool.eventStem 1, .file (Text.octets "\x7b\"id\":\"a\"\x7d\n") Disk.privateFile)]

/-- Where the second call is refused, a write, a read and a commit fail, and each is counted. -/
theorem failed_calls_counted_iff_balking :
    (Spool.started.write (.holding []) (.new "b")).2.1.counters.writes = 1 ∧
    (Spool.started.write (.balking Disk.unread) (.new "b")).1 =
      .error (.io (.counted .writeIo) .noSpace) ∧
    0 < (Spool.started.write (.balking Disk.unread) (.new "b")).2.1.counters.errorTotal ∧
    (Spool.started.nextBatch (.balking Disk.unread)).1 =
      .error (.io (.counted .readOpen) .noSpace) ∧
    0 < (Spool.started.nextBatch (.balking Disk.unread)).2.1.counters.errorTotal ∧
    (Spool.started.commit (.balking Disk.unread) (Spool.fileName Spool.eventStem 1)).1 =
      .error (.io (.counted .commitRemove) .noSpace) ∧
    0 < (Spool.started.commit (.balking Disk.unread)
      (Spool.fileName Spool.eventStem 1)).2.1.counters.errorTotal := by
  have hnone : Spool.started.counters.errorTotal = 0 ∧ Spool.started.counters.writes = 0 := by
    decide +kernel
  have hok : (Spool.started.write (.holding []) (.new "b")).1 = .ok () := by decide +kernel
  have hwrite : (Spool.started.write (.balking Disk.unread) (.new "b")).1 =
      .error (.io (.counted .writeIo) .noSpace) := by decide +kernel
  have hread : (Spool.started.nextBatch (.balking Disk.unread)).1 =
      .error (.io (.counted .readOpen) .noSpace) := by decide +kernel
  have hcommit : (Spool.started.commit (.balking Disk.unread)
      (Spool.fileName Spool.eventStem 1)).1 = .error (.io (.counted .commitRemove) .noSpace) := by
    decide +kernel
  have hwritten := ((failed_calls_counted_iff Spool.started (.holding [])).1 _ hok).1
  obtain ⟨-, hwrites, hreads, hcommits⟩ :=
    failed_calls_counted_iff Spool.started (.balking Disk.unread)
  have hwriteCounted := (hwrites _ _ hwrite).2.mpr (by decide)
  have hreadCounted := (hreads _ hread).2.mpr ⟨Disk.unread, rfl⟩
  have hcommitCounted := (hcommits _ _ hcommit).2
  rw [hnone.1] at hwriteCounted hreadCounted hcommitCounted
  rw [hnone.2] at hwritten
  exact ⟨hwritten, hwrite, hwriteCounted, hread, hreadCounted, hcommit, hcommitCounted⟩

/-- If the directory is gone, a read fails and no error is counted. -/
theorem unlisted_read_uncounted :
    (Spool.started.nextBatch .gone).1 = .error (.io .listDirectory .notFound) ∧
    ¬ Spool.started.counters.errorTotal <
      (Spool.started.nextBatch .gone).2.1.counters.errorTotal := by
  have hlist : Disk.gone.list.1 = .error .notFound := rfl
  obtain ⟨hanswer, hsame⟩ := Spool.started.nextBatch_of_unlisted hlist
  rw [hsame]
  exact ⟨hanswer, lt_irrefl _⟩

end AuditRelay
