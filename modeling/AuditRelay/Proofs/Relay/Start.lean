import AuditRelay.Relay.Service
import Mathlib.Data.List.TakeWhile

/-!
# AuditRelay.Proofs.Relay.Start — what a failed start leaves registered

A start registers the families of its store and then those of the loop, one after the other, and takes
none of them back. So all that it may do to the registry is to register the first of these families
(`Enrols`). One that fails may have registered none, those that come before a family that is refused, or
all those of a spool, which lists its directory once they are registered (`failed_start_registry`). What
it leaves is in the way of every later start.
-/

namespace AuditRelay

/-! ## Registering one family after the other -/

namespace Registry

/-- No family of that name is registered. -/
def admits (r : Registry) (f : Family) : Bool := !r.contains f.name

theorem admits_concat {r : Registry} {f g : Family} (h : g.name ≠ f.name) :
    (r ++ [f]).admits g = r.admits g := by
  have hne : (f.name == g.name) = false := beq_false_of_ne (Ne.symm h)
  simp [admits, contains, hne]

/-- Families of different names are registered up to the first one that is refused. -/
theorem registerAll_of_admits {p : Family → Bool} {fs : List Family}
    (hd : (fs.map Family.name).Nodup) {r : Registry} (hp : ∀ f ∈ fs, r.admits f = p f) :
    (r.registerAll fs).2 = r ++ fs.takeWhile p := by
  induction fs generalizing r with
  | nil => rw [registerAll, List.takeWhile_nil, List.append_nil]
  | cons f fs ih =>
    obtain ⟨hf, hd⟩ := List.nodup_cons.mp hd
    obtain ⟨hfirst, hrest⟩ := List.forall_mem_cons.mp hp
    rw [registerAll, register, List.takeWhile_cons, ← hfirst, admits]
    by_cases hr : r.contains f.name = true
    · simp [hr]
    · -- the others are admitted as before
      have hsame : ∀ g ∈ fs, (r ++ [f]).admits g = p g := by
        intro g hg
        rw [← hrest g hg]
        exact admits_concat fun heq => hf (heq ▸ List.mem_map_of_mem hg)
      simp [hr, ih hd hsame]

/-- Families that are all registered were admitted. -/
theorem registerAll_ok {r r' : Registry} {fs : List Family} (h : r.registerAll fs = (.ok (), r')) :
    (∀ f ∈ fs, r.contains f.name = false) ∧ r' = r ++ fs := by
  induction fs generalizing r with
  | nil =>
    cases h
    exact ⟨by simp, (List.append_nil _).symm⟩
  | cons f fs ih =>
    rw [registerAll, register] at h
    by_cases hf : r.contains f.name = true
    · simp [hf] at h
    · simp only [hf] at h
      obtain ⟨hfree, rfl⟩ := ih h
      refine ⟨List.forall_mem_cons.mpr ⟨Bool.eq_false_iff.mpr hf, fun g hg => ?_⟩, by simp⟩
      have hg := hfree g hg
      simp only [contains, List.any_append, Bool.or_eq_false_iff] at hg
      exact hg.1

theorem contains_of_mem {r : Registry} {f : Family} (h : f ∈ r) : r.contains f.name = true :=
  List.any_eq_true.mpr ⟨f, h, beq_self_eq_true _⟩

theorem registerAll_append (r : Registry) (fs gs : List Family) :
    r.registerAll (fs ++ gs) =
      match r.registerAll fs with
      | (.ok (), r) => r.registerAll gs
      | (.error e, r) => (.error e, r) := by
  induction fs generalizing r with
  | nil => rfl
  | cons f fs ih =>
    rw [List.cons_append, registerAll, registerAll]
    cases r.register f with
    | error e => rfl
    | ok r => exact ih r

end Registry

/-- The families of a store of that kind. -/
def StoreKind.families : StoreKind → List Family
  | .memory => StoreCounters.families MemoryStore.sizeDescription false
  | .file => StoreCounters.families Spool.sizeDescription true
  | .sql => StoreCounters.families TableStore.sizeDescription false

/-- The families of a relay with a store of that kind, in the order of their registration. -/
def Service.families (kind : StoreKind) : List Family :=
  kind.families ++ RelayCounters.families

theorem Service.nodup_families (kind : StoreKind) :
    ((families kind).map Family.name).Nodup := by
  cases kind <;> decide

theorem Service.head_families (kind : StoreKind) :
    ∃ f fs, families kind = f :: fs ∧ f.name = StoreCounters.writesName := by
  cases kind <;> exact ⟨_, _, rfl, rfl⟩

/-! ## Opening a store -/

variable {α β : Type} {kind : StoreKind} {r r' : Registry} {fs : List Family}

/-- Neither a family was refused nor the listing of a directory. -/
def Fault.IsEarly : Fault → Prop
  | .metrics _ | .io .listDirectory _ => False
  | _ => True

theorem Fault.IsEarly.ne_metrics {f : Fault} (h : f.IsEarly) (c : RegistryFault) :
    f ≠ .metrics c := by
  rintro rfl
  exact h

theorem Fault.IsEarly.ne_listDirectory {f : Fault} (h : f.IsEarly) (cause : SystemFault) :
    f ≠ .io .listDirectory cause := by
  rintro rfl
  exact h

/-- What a step of a start with that kind of store does to the registry: it registers the families, or
is refused one of them, or fails before the first. A spool whose directory cannot be listed has
registered its own by then. -/
inductive Enrols (kind : StoreKind) (r : Registry) (fs : List Family) (r' : Registry) :
    Except Fault α → Prop where
  | done (a : α) (h : r.registerAll fs = (.ok (), r')) : Enrols kind r fs r' (.ok a)
  | refused {c : RegistryFault} (h : r.registerAll fs = (.error c, r')) :
      Enrols kind r fs r' (.error (.metrics c))
  | before {f : Fault} (h : f.IsEarly) (hsame : r' = r) : Enrols kind r fs r' (.error f)
  | unlisted (cause : SystemFault) (hkind : kind = .file)
      (h : r.registerAll kind.families = (.ok (), r')) :
      Enrols kind r fs r' (.error (.io .listDirectory cause))

theorem Enrols.map {x : Except Fault α} (h : Enrols kind r fs r' x) (g : α → β) :
    Enrols kind r fs r' (x.map g) := by
  cases h with
  | done a h => exact .done _ h
  | refused h => exact .refused h
  | before h hsame => exact .before h hsame
  | unlisted cause hkind h => exact .unlisted cause hkind h

theorem StoreCounters.register_enrols (kind : StoreKind) (r : Registry) (description : String)
    (withFiles : Bool) :
    Enrols kind r (families description withFiles) (register r description withFiles).2
      (register r description withFiles).1 := by
  rw [register]
  split
  · rename_i h
    exact .done _ h
  · rename_i h
    exact .refused h

/-- What a failure leaves does not depend on what would have been opened. -/
theorem Enrols.error {f : Fault} (h : Enrols kind r fs r' (.error f : Except Fault α)) :
    Enrols kind r fs r' (.error f : Except Fault β) := by
  cases h with
  | refused h => exact .refused h
  | before h hsame => exact .before h hsame
  | unlisted cause hkind h => exact .unlisted cause hkind h

theorem MemoryStore.create_enrols (p : MemoryParameters) (r : Registry) :
    Enrols .memory r StoreKind.memory.families (create p r).2 (create p r).1 := by
  have hregister := StoreCounters.register_enrols .memory r sizeDescription false
  rw [create]
  split
  · exact .before trivial rfl
  · split
    · rename_i hrun
      rw [hrun] at hregister
      exact hregister.map fun counters => MemoryStore.mk _ _ counters
    · rename_i hrun
      rw [hrun] at hregister
      exact hregister.error

theorem Spool.listFiles_error {d d' : Disk} {f : Fault} (h : listFiles d = (.error f, d')) :
    ∃ cause, f = .io .listDirectory cause := by
  rw [listFiles] at h
  split at h
  · cases h
  · exact ⟨_, (Except.error.inj (Prod.mk.inj h).1).symm⟩

theorem Spool.create_enrols (p : SpoolParameters) (r : Registry) (d : Disk) :
    Enrols .file r StoreKind.file.families (create p r d).2.1 (create p r d).1 := by
  have hregister := StoreCounters.register_enrols .file r sizeDescription true
  rw [create]
  simp only
  split
  · exact .before trivial rfl
  · split
    · exact .before trivial rfl
    · split
      · exact .before trivial rfl
      · split
        · rename_i hrun
          rw [hrun] at hregister
          exact hregister.error
        · rename_i hrun
          rw [hrun] at hregister
          split
          · rename_i hlist
            obtain ⟨cause, rfl⟩ := listFiles_error hlist
            cases hregister with
            | done _ h => exact .unlisted cause rfl h
          · exact hregister.map fun counters => Spool.mk _ _ _ _ _ counters

theorem TableStore.migrate_error {table : String} {sts : List Statement} {db db' : Database}
    {f : Fault} (h : migrate table db sts = (.error f, db')) : ∃ reason, f = .database reason := by
  induction sts generalizing db with
  | nil => cases h
  | cons st sts ih =>
    rw [migrate] at h
    split at h
    · exact ⟨_, (Except.error.inj (Prod.mk.inj h).1).symm⟩
    · exact ih h

theorem TableStore.create_enrols (p : TableParameters) (r : Registry) (db : Database) :
    Enrols .sql r StoreKind.sql.families (create p r db).2.1 (create p r db).1 := by
  have hregister := StoreCounters.register_enrols .sql r sizeDescription false
  rw [create]
  simp only
  split
  · exact .before trivial rfl
  · split
    · exact .before trivial rfl
    · split
      · exact .before trivial rfl
      · split
        · rename_i hrun
          obtain ⟨reason, rfl⟩ := migrate_error hrun
          exact .before trivial rfl
        · split
          · rename_i hrun
            rw [hrun] at hregister
            exact hregister.error
          · rename_i hrun
            rw [hrun] at hregister
            exact hregister.map fun counters => TableStore.mk _ _ _ counters

theorem Site.create_enrols (site : Site) (p : StoreParameters) (r : Registry) :
    Enrols p.kind r p.kind.families (site.create p r).2.1 (site.create p r).1 := by
  cases p with
  | memory p => exact (MemoryStore.create_enrols p r).map _
  | file p => exact (Spool.create_enrols p r _).map _
  | sql p =>
    rw [create, createTable]
    split
    · exact .before trivial rfl
    · exact (TableStore.create_enrols p r _).map _

/-! ## The whole start -/

namespace StoreParameters

theorem read_cases {kind : StoreKind} (make : α → StoreParameters)
    (hmake : ∀ a, (make a).kind = kind) (defaults : α) (ofJson : Json → Except ShapeFault α)
    (params : Json) :
    (∃ p, (read kind defaults ofJson params).map make = .ok p ∧ p.kind = kind) ∨
      ∃ reason, (read kind defaults ofJson params).map make = .error (.invalidConfig reason) := by
  unfold read
  split
  · exact .inl ⟨_, rfl, hmake _⟩
  · cases ofJson params with
    | error f => exact .inr ⟨_, rfl⟩
    | ok a => exact .inl ⟨_, rfl, hmake a⟩

/-- The parameters of a spec are those of its kind. -/
theorem ofSpec_cases (spec : StoreSpec) :
    (∃ p, ofSpec spec = .ok p ∧ spec.kind = p.kind.name) ∨
      ∃ f, ofSpec spec = .error f ∧ f.IsEarly := by
  have hread : ∀ {kind : StoreKind} {x : Except Fault StoreParameters}, spec.kind = kind.name →
      ((∃ p, x = .ok p ∧ p.kind = kind) ∨ ∃ reason, x = .error (.invalidConfig reason)) →
      (∃ p, x = .ok p ∧ spec.kind = p.kind.name) ∨ ∃ f, x = .error f ∧ f.IsEarly := by
    rintro kind x hkind (⟨p, rfl, hp⟩ | ⟨reason, rfl⟩)
    · exact .inl ⟨p, rfl, hp ▸ hkind⟩
    · exact .inr ⟨_, rfl, trivial⟩
  rw [ofSpec]
  split
  · rename_i hkind
    exact hread hkind (read_cases .memory (fun _ => rfl) _ _ _)
  · split
    · rename_i hkind
      exact hread hkind (read_cases .file (fun _ => rfl) _ _ _)
    · split
      · rename_i hkind
        exact hread hkind (read_cases .sql (fun _ => rfl) _ _ _)
      · exact .inr ⟨_, rfl, trivial⟩

end StoreParameters

/-- Opening the store of a spec registers the families of its kind. A spec of no kind fails before. -/
theorem Assembly.build_enrols {own : Assembly} {spec : StoreSpec}
    (hown : Named.get? own spec.kind = none) (r : Registry) (site : Site) :
    (∃ kind : StoreKind, spec.kind = kind.name ∧
      Enrols kind r kind.families (own.build spec r site).2.1 (own.build spec r site).1) ∨
    ∃ f, (own.build spec r site).1 = .error f ∧ f.IsEarly ∧ (own.build spec r site).2.1 = r := by
  rw [build, hown]
  simp only
  rcases StoreParameters.ofSpec_cases spec with ⟨p, hp, hkind⟩ | ⟨f, hf, hne⟩
  · rw [hp]
    exact .inl ⟨p.kind, hkind, site.create_enrols p r⟩
  · rw [hf]
    exact .inr ⟨f, rfl, hne, rfl⟩

/-- A start registers the families of its store, and then those of the loop. -/
theorem Service.start_enrols {own : Assembly} {settings : Settings}
    (hown : Named.get? own settings.store.kind = none) (r : Registry) (site : Site) :
    (∃ kind : StoreKind, settings.store.kind = kind.name ∧
      Enrols kind r (families kind) (start own settings r site).2.1 (start own settings r site).1) ∨
    ∃ f, (start own settings r site).1 = .error f ∧ f.IsEarly ∧
      (start own settings r site).2.1 = r := by
  have hbuild := Assembly.build_enrols hown r site
  rw [start]
  split
  · -- the store is not opened
    rename_i f r₁ site₁ hrun
    rw [hrun] at hbuild
    rcases hbuild with ⟨kind, hkind, henrols⟩ | ⟨f', hf, hne, hsame⟩
    · refine .inl ⟨kind, hkind, ?_⟩
      cases henrols with
      | refused h =>
        refine .refused ?_
        rw [families, Registry.registerAll_append, h]
      | before h hsame => exact .before h hsame
      | unlisted cause hkind h => exact .unlisted cause hkind h
    · obtain rfl := Except.error.inj hf
      exact .inr ⟨f, rfl, hne, hsame⟩
  · rename_i store r₁ site₁ hrun
    rw [hrun] at hbuild
    rcases hbuild with ⟨kind, hkind, henrols⟩ | ⟨f', hf, -⟩
    · refine .inl ⟨kind, hkind, ?_⟩
      have hall : r.registerAll (families kind) = r₁.registerAll RelayCounters.families := by
        cases henrols with
        | done _ h => rw [families, Registry.registerAll_append, h]
      rw [RelayCounters.register]
      cases hrelay : r₁.registerAll RelayCounters.families with
      | mk answer r₂ =>
        cases answer with
        | error c => exact .refused (hall.trans hrelay)
        | ok u => exact .done _ (hall.trans hrelay)
    · cases hf

/-- A failed start has registered nothing, or the families before the one that was refused, or those of
a spool. -/
theorem Service.start_failed {own : Assembly} {settings : Settings} {r : Registry} {site : Site}
    {f : Fault} (hown : Named.get? own settings.store.kind = none)
    (hfailed : (start own settings r site).1 = .error f) :
    (f.IsEarly ∧ (start own settings r site).2.1 = r) ∨
    ((∃ c, f = .metrics c) ∧ ∃ kind : StoreKind, settings.store.kind = kind.name ∧
      (start own settings r site).2.1 = r ++ (families kind).takeWhile r.admits) ∨
    ((∃ cause, f = .io .listDirectory cause) ∧ settings.store.kind = StoreKind.file.name ∧
      (start own settings r site).2.1 = r ++ StoreKind.file.families) := by
  have henrols := start_enrols hown r site
  rw [hfailed] at henrols
  rcases henrols with ⟨kind, hkind, henrols⟩ | ⟨f', hf, hearly, hsame⟩
  · cases henrols with
    | @refused c h =>
      refine .inr (.inl ⟨⟨c, rfl⟩, kind, hkind, ?_⟩)
      rw [← Registry.registerAll_of_admits (nodup_families kind) fun _ _ => rfl, h]
    | before hearly hsame => exact .inl ⟨hearly, hsame⟩
    | unlisted cause hfile h =>
      subst hfile
      exact .inr (.inr ⟨⟨cause, rfl⟩, hkind, (Registry.registerAll_ok h).2⟩)
  · obtain rfl := Except.error.inj hf
    exact .inl ⟨hearly, hsame⟩

/-- What a failed start leaves, if anything, begins with the first family of its store. -/
theorem Service.left_contains {own : Assembly} {settings : Settings} {r : Registry} {site : Site}
    {f : Fault} (hown : Named.get? own settings.store.kind = none)
    (hfailed : (start own settings r site).1 = .error f)
    (hleft : (start own settings r site).2.1 ≠ r) :
    (start own settings r site).2.1.contains StoreCounters.writesName = true := by
  rcases start_failed hown hfailed with
    ⟨-, hsame⟩ | ⟨-, kind, -, hadded⟩ | ⟨-, -, hadded⟩
  · exact absurd hsame hleft
  · obtain ⟨g, gs, hfamilies, hname⟩ := head_families kind
    rw [hfamilies, List.takeWhile_cons] at hadded
    cases hg : r.admits g with
    | false => exact absurd (by simpa [hg] using hadded) hleft
    | true =>
      rw [hadded, hg, if_pos rfl, ← hname]
      exact Registry.contains_of_mem (List.mem_append_right _ List.mem_cons_self)
  · rw [hadded]
    exact Registry.contains_of_mem (List.mem_append_right _ List.mem_cons_self)

/-- While the first family of a store is registered, no start succeeds. -/
theorem Service.start_refused {own : Assembly} {settings : Settings} {r : Registry} {site : Site}
    (hown : Named.get? own settings.store.kind = none)
    (htaken : r.contains StoreCounters.writesName = true) :
    ∃ f, (start own settings r site).1 = .error f := by
  rcases start_enrols hown r site with ⟨kind, -, henrols⟩ | ⟨f, hf, -⟩
  · cases hrun : (start own settings r site).1 with
    | error f => exact ⟨f, rfl⟩
    | ok service =>
      rw [hrun] at henrols
      cases henrols with
      | done _ h =>
        obtain ⟨g, gs, hfamilies, hname⟩ := head_families kind
        have hfree := (Registry.registerAll_ok h).1 g (hfamilies ▸ List.mem_cons_self)
        rw [hname, htaken] at hfree
        cases hfree
  · exact ⟨f, hf⟩

/-- A start with a kind of store that the library brings fails. If neither a metric was refused nor the
listing of the directory, the registry is as it was. If a metric was refused, the families of this start
that come before it have been added, in order. If a spool could not list its directory, its own have
been added. So the registry is as it was only if that did not happen and no metric but the first one was
refused; and once it has changed, no start with such a kind succeeds on it any more. -/
theorem failed_start_registry {own : Assembly} {settings : Settings} {r : Registry} {site : Site}
    {f : Fault} (hown : Named.get? own settings.store.kind = none)
    (hfailed : (Service.start own settings r site).1 = .error f) :
    ((∀ c, f ≠ .metrics c) → (∀ cause, f ≠ .io .listDirectory cause) →
      (Service.start own settings r site).2.1 = r) ∧
    (∀ c, f = .metrics c → ∃ kind : StoreKind, settings.store.kind = kind.name ∧
      (Service.start own settings r site).2.1 =
        r ++ (Service.families kind).takeWhile r.admits) ∧
    (∀ cause, f = .io .listDirectory cause → settings.store.kind = StoreKind.file.name ∧
      (Service.start own settings r site).2.1 = r ++ StoreKind.file.families) ∧
    ((Service.start own settings r site).2.1 = r ↔
      (∀ cause, f ≠ .io .listDirectory cause) ∧
        ((∀ c, f ≠ .metrics c) ∨ r.contains StoreCounters.writesName = true)) ∧
    ((Service.start own settings r site).2.1 ≠ r →
      ∀ (own' : Assembly) (settings' : Settings) (site' : Site),
        Named.get? own' settings'.store.kind = none →
        ∃ f', (Service.start own' settings' (Service.start own settings r site).2.1 site').1 =
          .error f') := by
  have hlater : (Service.start own settings r site).2.1 ≠ r →
      ∀ (own' : Assembly) (settings' : Settings) (site' : Site),
        Named.get? own' settings'.store.kind = none →
        ∃ f', (Service.start own' settings' (Service.start own settings r site).2.1 site').1 =
          .error f' :=
    fun hne _ _ _ hown' => Service.start_refused hown' (Service.left_contains hown hfailed hne)
  rcases Service.start_failed hown hfailed with
    ⟨hearly, hsame⟩ | ⟨⟨c, rfl⟩, kind, hkind, hleft⟩ | ⟨⟨cause, rfl⟩, hkind, hleft⟩
  · exact ⟨fun _ _ => hsame, fun c hc => absurd hc (hearly.ne_metrics c),
      fun cause hcause => absurd hcause (hearly.ne_listDirectory cause),
      iff_of_true hsame ⟨hearly.ne_listDirectory, .inl hearly.ne_metrics⟩, hlater⟩
  · have hmetrics : ¬ ∀ c', Fault.metrics c ≠ .metrics c' := fun hne => hne c rfl
    -- nothing is added only if the first family is not admitted
    obtain ⟨g, gs, hfamilies, hname⟩ := Service.head_families kind
    have hsame : (Service.start own settings r site).2.1 = r ↔
        r.contains StoreCounters.writesName = true := by
      rw [hleft, List.append_right_eq_self, hfamilies, List.takeWhile_cons, Registry.admits, hname]
      cases r.contains StoreCounters.writesName <;> simp
    exact ⟨fun hne => absurd hne hmetrics, fun _ _ => ⟨kind, hkind, hleft⟩, by simp,
      hsame.trans ⟨fun h => ⟨by simp, .inr h⟩, fun h => h.2.resolve_left hmetrics⟩, hlater⟩
  · have hlisted : ¬ ∀ cause', Fault.io .listDirectory cause ≠ .io .listDirectory cause' :=
      fun hne => hne cause rfl
    refine ⟨fun _ hne => absurd hne hlisted, by simp, fun _ _ => ⟨hkind, hleft⟩,
      iff_of_false ?_ fun h => absurd h.1 hlisted, hlater⟩
    rw [hleft, List.append_right_eq_self]
    exact List.cons_ne_nil _ _

/-! ## Starts that are refused half-way -/

namespace Service

/-- An empty root directory, and no database. -/
def bareSite : Site :=
  ⟨.directory [] Disk.privateDirectory, ⟨fun _ => none, fun _ => 0, 4095⟩, 0, 0, none⟩

/-- Its host grants the first call, by which a spool creates its directory, and refuses the second, by
which it lists it. -/
def unlistedSite : Site :=
  { bareSite with
    host := ⟨fun n => if n = 1 then some ⟨.other "input/output error", 0⟩ else none,
      fun _ => 0, 4095⟩ }

/-- A relay with a store in memory. -/
def inMemory : Settings := { queueName := "q" }

/-- A relay with a store in a directory of files. -/
def inFiles : Settings :=
  { queueName := "q", store := ⟨StoreKind.file.name, .object [("directory", .string "buf")]⟩ }

/-- The host has a metric of its own under a name that a spool uses. -/
def taken : Registry := [⟨StoreCounters.filesName, .gauge, "Files of the host."⟩]

end Service

/-- If the metrics of the loop are registered already, those of the store stay behind. -/
theorem failed_start_registry_preregistered :
    (Service.start [] Service.inMemory RelayCounters.families Service.bareSite).1 =
      .error (.metrics .duplicate) ∧
    (Service.start [] Service.inMemory RelayCounters.families Service.bareSite).2.1 ≠
      RelayCounters.families := by
  have hfailed : (Service.start [] Service.inMemory RelayCounters.families Service.bareSite).1 =
      .error (.metrics .duplicate) := by decide +kernel
  obtain ⟨-, -, -, hiff, -⟩ := failed_start_registry rfl hfailed
  refine ⟨hfailed, fun hsame => ?_⟩
  rcases (hiff.mp hsame).2 with hne | hcontains
  · exact hne _ rfl
  · exact absurd hcontains (by decide)

/-- A failed start leaves metrics in the registry, be it that one was refused or that the directory could
not be listed. So a start with a store in memory is refused after one with a spool has failed, and would
not have been refused before. -/
theorem failed_start_leaves_metrics :
    (Service.start [] Service.inMemory RelayCounters.families Service.bareSite).1 =
      .error (.metrics .duplicate) ∧
    (Service.start [] Service.inMemory RelayCounters.families Service.bareSite).2.1 =
      RelayCounters.families ++ StoreKind.memory.families ∧
    (Service.start [] Service.inFiles Service.taken Service.bareSite).1 =
      .error (.metrics .duplicate) ∧
    (Service.start [] Service.inMemory Service.taken Service.bareSite).1 =
      .ok ⟨.memory ⟨MemoryStore.defaultLimit, [], .zero false⟩, .zero⟩ ∧
    (Service.start [] Service.inMemory
      (Service.start [] Service.inFiles Service.taken Service.bareSite).2.1
      (Service.start [] Service.inFiles Service.taken Service.bareSite).2.2).1 =
        .error (.metrics .duplicate) ∧
    (Service.start [] Service.inFiles [] Service.unlistedSite).1 =
      .error (.io .listDirectory (.other "input/output error")) ∧
    (Service.start [] Service.inFiles [] Service.unlistedSite).2.1 = StoreKind.file.families ∧
    (Service.start [] Service.inMemory (Service.start [] Service.inFiles [] Service.unlistedSite).2.1
      (Service.start [] Service.inFiles [] Service.unlistedSite).2.2).1 =
        .error (.metrics .duplicate) := by
  decide +kernel

end AuditRelay
