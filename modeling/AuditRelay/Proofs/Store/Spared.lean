import AuditRelay.Proofs.Store.Attempts

/-!
# AuditRelay.Proofs.Store.Spared — reading loses no damaged line

A damaged line stands in an event file until a read sets it aside in a dead letter. `Spool.Spares` says
of two moments that no damaged line is lost between them: a file may be removed or replaced when its
damaged lines are recorded (`Spool.IsSafe`), and what is put behind complete lines harms none of them.

Reading is such a step, whatever else fails, as long as the dead letters are written
(`BatchRead.spares`); and the file that a batch is of is safe then.
-/

namespace AuditRelay

namespace Spool

/-! ## Where a damaged line is -/

/-- A dead letter shows the line. The letter has a line of its own. -/
def IsRecorded (ls : Nat → Octets) (line : Octets) : Prop :=
  ∃ (n : Nat) (before after : Octets) (l : DeadLetter), ls n = before ++ (l.written ++ after) ∧
    IsWhole before ∧ l.rawData = Text.lossy line

/-- The line stands in an event file. -/
def Contains (fs : Named Octets) (line : Octets) : Prop :=
  ∃ name c, Named.get? fs name = some c ∧ line ∈ lines c

/-- Every damaged line of the file is recorded, if the file is there. -/
def IsSafe (fs : Named Octets) (ls : Nat → Octets) (name : String) : Prop :=
  ∀ c, Named.get? fs name = some c → ∀ line ∈ lines c, isDamagedLine line = true →
    IsRecorded ls line

/-- No damaged line is lost between two moments. -/
structure Spares (fs : Named Octets) (ls : Nat → Octets) (fs' : Named Octets)
    (ls' : Nat → Octets) : Prop where
  recorded : ∀ line, IsRecorded ls line → IsRecorded ls' line
  contained : ∀ line, isDamagedLine line = true → Contains fs line →
    Contains fs' line ∨ IsRecorded ls' line

variable {p : Place} {host : Host} {s s' : Spool} {fs fs' : Named Octets} {ls ls' : Nat → Octets}
  {name : String} {c : Octets}

namespace Spares

theorem refl (fs : Named Octets) (ls : Nat → Octets) : Spares fs ls fs ls :=
  ⟨fun _ h => h, fun _ _ h => .inl h⟩

theorem trans {fs₁ fs₂ fs₃ : Named Octets} {ls₁ ls₂ ls₃ : Nat → Octets}
    (h : Spares fs₁ ls₁ fs₂ ls₂) (h' : Spares fs₂ ls₂ fs₃ ls₃) : Spares fs₁ ls₁ fs₃ ls₃ := by
  constructor
  · intro line hr
    exact h'.recorded line (h.recorded line hr)
  · intro line hd hc
    rcases h.contained line hd hc with hc | hr
    · exact h'.contained line hd hc
    · exact .inr (h'.recorded line hr)

end Spares

/-- More is put behind some dead letters. -/
theorem spares_letters (fs : Named Octets) (ls : Nat → Octets) (n : Nat) (bs : Octets) :
    Spares fs ls fs (Function.update ls n (ls n ++ bs)) := by
  constructor
  · rintro line ⟨m, before, after, l, hm, hwhole, hraw⟩
    by_cases hmn : m = n
    · subst hmn
      refine ⟨m, before, after ++ bs, l, ?_, hwhole, hraw⟩
      rw [Function.update_self, hm, List.append_assoc, List.append_assoc]
    · refine ⟨m, before, after, l, ?_, hwhole, hraw⟩
      rw [Function.update_of_ne hmn, hm]
  · intro line _ hc
    exact .inl hc

/-- An event file gets other contents, and no damaged line of the earlier ones is lost with them. -/
theorem spares_insert (c' : Octets)
    (h : ∀ c, Named.get? fs name = some c → ∀ line ∈ lines c, isDamagedLine line = true →
      line ∈ lines c' ∨ IsRecorded ls line) :
    Spares fs ls (Named.insert name c' fs) ls := by
  constructor
  · exact fun _ hr => hr
  · rintro line hd ⟨k, c, hg, hl⟩
    by_cases hk : k = name
    · subst hk
      rcases h c hg line hl hd with hl' | hr
      · exact .inl ⟨k, c', Named.get?_insert_self k c' fs, hl'⟩
      · exact .inr hr
    · refine .inl ⟨k, c, ?_, hl⟩
      rw [Named.get?_insert, if_neg hk, hg]

theorem spares_erase (h : IsSafe fs ls name) : Spares fs ls (Named.erase name fs) ls := by
  constructor
  · exact fun _ hr => hr
  · rintro line hd ⟨k, c, hg, hl⟩
    by_cases hk : k = name
    · subst hk
      exact .inr (h c hg line hl hd)
    · refine .inl ⟨k, c, ?_, hl⟩
      rw [Named.get?_erase, if_neg hk, hg]

/-- A line that is put behind complete lines harms none of them. -/
theorem spares_append (h : IsWhole ((Named.get? fs name).getD [])) (ls : Nat → Octets)
    (bs : Octets) :
    Spares fs ls (Named.insert name ((Named.get? fs name).getD [] ++ bs) fs) ls := by
  refine spares_insert _ ?_
  intro c hg line hl hd
  rw [hg, Option.getD_some] at h ⊢
  exact .inl (mem_lines_append h hl (ne_nil_of_isDamagedLine hd) bs)

theorem exists_damaged_of_line {line : Octets} (hl : line ∈ lines c)
    (hd : isDamagedLine line = true) : ∃ x ∈ damagedIn c, x.line = line := by
  have hmem : line ∈ (damagedIn c).map Damaged.line := by
    rw [damagedIn, map_line_damaged]
    exact List.mem_filter.mpr ⟨hl, hd⟩
  exact List.mem_map.mp hmem

/-- What is kept of a file has no damaged line. -/
theorem not_isDamagedLine_of_kept {line : Octets} (hl : line ∈ lines (keptOf c)) :
    isDamagedLine line = false := by
  rw [Bool.eq_false_iff]
  intro hd
  obtain ⟨x, hx, -⟩ := exists_damaged_of_line hl hd
  rw [damagedIn, keptOf, damaged_kept] at hx
  cases hx

/-- What is safe stays so when the file is there no more, or is what was left of it. -/
theorem Spares.isSafe (h : Spares fs ls fs' ls') (hsafe : IsSafe fs ls name)
    (hleft : ∀ c', Named.get? fs' name = some c' → ∃ c, Named.get? fs name = some c ∧ IsLeftOf c c') :
    IsSafe fs' ls' name := by
  intro c' hg' line hl hd
  obtain ⟨c, hg, rfl | rfl⟩ := hleft c' hg'
  · exact h.recorded line (hsafe _ hg line hl hd)
  · have hnot := not_isDamagedLine_of_kept hl
    rw [hnot] at hd
    contradiction

/-! ## What reading does -/

theorem AreLettersOf.exists_letter {xs : List Damaged} {letters : List DeadLetter}
    (h : AreLettersOf name xs letters) {x : Damaged} (hx : x ∈ xs) :
    ∃ l ∈ letters, ∃ timestamp, l = x.letter timestamp name := by
  induction h with
  | nil => cases hx
  | cons hl _ ih =>
    rcases List.mem_cons.mp hx with rfl | hx
    · exact ⟨_, List.mem_cons_self, hl⟩
    · obtain ⟨l, hmem, hl'⟩ := ih hx
      exact ⟨l, List.mem_cons_of_mem _ hmem, hl'⟩

/-- Damaged lines are recorded when their letters are put behind complete ones. -/
theorem AreLettersOf.isRecorded {xs : List Damaged} {letters : List DeadLetter}
    (h : AreLettersOf name xs letters) (n : Nat) (hw : IsWhole (ls n)) {x : Damaged} (hx : x ∈ xs) :
    IsRecorded (Function.update ls n (ls n ++ letters.flatMap DeadLetter.written)) x.line := by
  obtain ⟨l, hl, timestamp, rfl⟩ := h.exists_letter hx
  obtain ⟨front, back, rfl⟩ := List.append_of_mem hl
  refine ⟨n, ls n ++ front.flatMap DeadLetter.written, back.flatMap DeadLetter.written,
    x.letter timestamp name, ?_, hw.append (isWhole_letters front), rfl⟩
  rw [Function.update_self, List.flatMap_append, List.flatMap_cons, List.append_assoc]

theorem isWhole_update (hw : ∀ n, IsWhole (ls n)) (n : Nat) (letters : List DeadLetter) (m : Nat) :
    IsWhole (Function.update ls n (ls n ++ letters.flatMap DeadLetter.written) m) := by
  by_cases hm : m = n
  · subst hm
    rw [Function.update_self]
    exact (hw m).append (isWhole_letters letters)
  · rw [Function.update_of_ne hm]
    exact hw m

/-- A file that is read is safe then, unless its dead letters failed to be written. -/
theorem FileRead.spares {r : Except Fault (List Event)}
    (h : FileRead p host s fs ls name c r s' fs' ls') (hg : Named.get? fs name = some c)
    (hw : ∀ n, IsWhole (ls n)) (hok : .deadLetterWriteFailed ∉ s'.counters.errors) :
    Spares fs ls fs' ls' ∧ (∀ n, IsWhole (ls' n)) ∧
    ((∃ es, r = .ok es) → IsSafe fs' ls' name) := by
  cases h with
  | unread => exact ⟨.refl fs ls, hw, by rintro ⟨es, hes⟩; cases hes⟩
  | exhausted => exact ⟨.refl fs ls, hw, by rintro ⟨es, hes⟩; cases hes⟩
  | clean hd =>
    -- there is no damaged line to be safe
    refine ⟨.refl fs ls, hw, fun _ c' hg' line hl hdamaged => ?_⟩
    obtain ⟨x, hx, -⟩ := exists_damaged_of_line hl hdamaged
    rw [hg, Option.some.injEq] at hg'
    rw [← hg', hd] at hx
    cases hx
  | unset => exact absurd List.mem_cons_self hok
  | unreplaced n letters hd hn hletters =>
    -- the damaged lines are still in the file, and in the letters too
    refine ⟨spares_letters fs ls n _, isWhole_update hw n letters,
      fun _ c' hg' line hl hdamaged => ?_⟩
    obtain ⟨x, hx, rfl⟩ := exists_damaged_of_line hl hdamaged
    rw [hg, Option.some.injEq] at hg'
    rw [← hg'] at hx
    exact hletters.isRecorded n (hw n) hx
  | replaced n letters hd hn hletters =>
    refine ⟨?_, isWhole_update hw n letters, fun _ c' hg' line hl hdamaged => ?_⟩
    · -- first the letters are written, then the file is replaced
      refine (spares_letters fs ls n _).trans (spares_insert _ ?_)
      intro c' hg' line hl hdamaged
      obtain ⟨x, hx, rfl⟩ := exists_damaged_of_line hl hdamaged
      rw [hg, Option.some.injEq] at hg'
      rw [← hg'] at hx
      exact .inr (hletters.isRecorded n (hw n) hx)
    · rw [Named.get?_insert_self, Option.some.injEq] at hg'
      rw [← hg'] at hl
      rw [not_isDamagedLine_of_kept hl] at hdamaged
      contradiction

/-- What reading a batch makes of the files: there are none but earlier ones, the current file is as
before, and the file of the batch is another one and is there. -/
structure Leaves (r : Except Fault (Option Batch)) (fs : Named Octets) (s' : Spool)
    (fs' : Named Octets) : Prop where
  fewer : ∀ k c', Named.get? fs' k = some c' → ∃ c, Named.get? fs k = some c ∧ IsLeftOf c c'
  current : ∀ k, s'.current = some k → Named.get? fs' k = Named.get? fs k
  batch : ∀ b, r = .ok (some b) → ∃ k c', b.token = .file k ∧ Named.get? fs' k = some c' ∧
    s'.current ≠ some k

/-- Only the file that is read may have other contents then. -/
theorem FileRead.get?_of_ne {r : Except Fault (List Event)}
    (h : FileRead p host s fs ls name c r s' fs' ls') {k : String} (hk : k ≠ name) :
    Named.get? fs' k = Named.get? fs k := by
  rcases h.files with rfl | rfl
  · rfl
  · rw [Named.get?_insert, if_neg hk]

theorem FileRead.leaves {r : Except Fault (List Event)}
    (h : FileRead p host (s.released name) fs ls name c r s' fs' ls')
    (hg : Named.get? fs name = some c) :
    s'.current ≠ some name ∧ (∃ c', Named.get? fs' name = some c') ∧
    (∀ k, s'.current = some k → Named.get? fs' k = Named.get? fs k) ∧
    (∀ k c', Named.get? fs' k = some c' → ∃ c, Named.get? fs k = some c ∧ IsLeftOf c c') := by
  have hne : s'.current ≠ some name := by
    rw [h.follows.2]
    exact current_released s name
  refine ⟨hne, ?_, ?_, ?_⟩
  · rcases h.files with rfl | rfl
    · exact ⟨c, hg⟩
    · exact ⟨keptOf c, Named.get?_insert_self _ _ _⟩
  · intro k hk
    refine h.get?_of_ne ?_
    rintro rfl
    exact hne hk
  · intro k c' hk
    by_cases hkn : k = name
    · subst hkn
      refine ⟨c, hg, ?_⟩
      rcases h.files with rfl | rfl
      · rw [hg, Option.some.injEq] at hk
        exact .inl hk.symm
      · rw [Named.get?_insert_self, Option.some.injEq] at hk
        exact .inr hk.symm
    · exact ⟨c', by rw [← h.get?_of_ne hkn, hk], .inl rfl⟩

theorem BatchRead.leaves {r : Except Fault (Option Batch)}
    (h : BatchRead p host s fs ls r s' fs' ls') (ho : Named.IsOrdered fs) :
    Leaves r fs s' fs' := by
  -- along the files that are read
  induction h with
  | nothing s ls =>
    refine ⟨?_, fun _ _ => rfl, ?_⟩
    · intro k c' hk
      exact ⟨c', hk, .inl rfl⟩
    · intro b hb
      cases hb
  | failed s name c rest ls f s' fs' ls' hr =>
    obtain ⟨-, -, hsame, hfewer⟩ := hr.leaves (Named.get?_first name c rest)
    exact ⟨hfewer, hsame, fun b hb => by cases hb⟩
  | batch s name c rest ls s' fs' ls' hne hr =>
    obtain ⟨hcurrent, ⟨c', hthere⟩, hsame, hfewer⟩ := hr.leaves (Named.get?_first name c rest)
    refine ⟨hfewer, hsame, ?_⟩
    intro b hb
    obtain rfl := Option.some.inj (Except.ok.inj hb)
    exact ⟨name, c', rfl, hthere, hcurrent⟩
  | unremoved s name c rest ls f s' fs' ls' he hr hno =>
    obtain ⟨-, -, hsame, hfewer⟩ := hr.leaves (Named.get?_first name c rest)
    refine ⟨hfewer, hsame, ?_⟩
    intro b hb
    cases hb
  | pass s name c c' rest ls s₁ ls₁ size he hr hsize hrest ih =>
    obtain ⟨hcurrent, -, -, -⟩ := hr.leaves (Named.get?_first name c rest)
    have hleaves := ih (List.pairwise_cons.mp ho).2
    -- the removed file is none of the others, and not the current one
    have hlater : ∀ k, (∃ c', Named.get? rest k = some c') → k ≠ name := by
      rintro k ⟨c', hk⟩ rfl
      exact absurd ((List.pairwise_cons.mp ho).1 _ (Named.mem_of_get? hk)) (lt_irrefl _)
    refine ⟨?_, ?_, hleaves.batch⟩
    · intro k c' hk
      obtain ⟨c'', hk', hleft⟩ := hleaves.fewer k c' hk
      exact ⟨c'', by rw [Named.get?_cons, if_neg (hlater k ⟨c'', hk'⟩), hk'], hleft⟩
    · intro k hk
      have hkn : k ≠ name := by
        rintro rfl
        rcases hrest.follows.current with hc | hc
        · exact hcurrent (hc.symm.trans hk)
        · rw [hc] at hk
          contradiction
      rw [hleaves.current k hk, Named.get?_cons, if_neg hkn]

/-- Reading a batch loses no damaged line, unless dead letters failed to be written. -/
theorem BatchRead.spares {r : Except Fault (Option Batch)}
    (h : BatchRead p host s fs ls r s' fs' ls') (ho : Named.IsOrdered fs)
    (hw : ∀ n, IsWhole (ls n)) (hok : .deadLetterWriteFailed ∉ s'.counters.errors) :
    Spares fs ls fs' ls' ∧ (∀ n, IsWhole (ls' n)) ∧
    ∀ b k, r = .ok (some b) → b.token = .file k → IsSafe fs' ls' k := by
  -- along the files that are read; the counters only grow, so no file before failed either
  induction h with
  | nothing s ls => exact ⟨.refl _ _, hw, fun b k hb => by cases hb⟩
  | failed s name c rest ls f s' fs' ls' hr =>
    obtain ⟨hspares, hwhole, -⟩ := hr.spares (Named.get?_first name c rest) hw hok
    exact ⟨hspares, hwhole, fun b k hb => by cases hb⟩
  | batch s name c rest ls s' fs' ls' hne hr =>
    obtain ⟨hspares, hwhole, hsafe⟩ := hr.spares (Named.get?_first name c rest) hw hok
    refine ⟨hspares, hwhole, ?_⟩
    intro b k hb hk
    obtain rfl := Option.some.inj (Except.ok.inj hb)
    obtain rfl := Token.file.inj hk
    exact hsafe ⟨_, rfl⟩
  | unremoved s name c rest ls f s' fs' ls' he hr hno =>
    obtain ⟨hspares, hwhole, -⟩ := hr.spares (Named.get?_first name c rest) hw
      fun hmem => hok (List.mem_cons_of_mem _ hmem)
    exact ⟨hspares, hwhole, fun b k hb => by cases hb⟩
  | pass s name c c' rest ls s₁ ls₁ size he hr hsize hrest ih =>
    have ho' := (List.pairwise_cons.mp ho).2
    obtain ⟨hspares, hwhole, hsafe⟩ := hr.spares (Named.get?_first name c rest) hw
      fun hmem => hok (hrest.follows.errors hmem)
    obtain ⟨hspares', hwhole', hbatch⟩ := ih ho' hwhole hok
    -- the file is removed, and its damaged lines are recorded
    have ho₁ : Named.IsOrdered ((name, c') :: rest) :=
      List.pairwise_cons.mpr ⟨(List.pairwise_cons.mp ho).1, ho'⟩
    have herase := spares_erase (hsafe ⟨_, rfl⟩)
    rw [ho₁.erase_first] at herase
    exact ⟨(hspares.trans herase).trans hspares', hwhole', hbatch⟩

end Spool

end AuditRelay
