import AuditRelay.Store.Disk
import Mathlib.Data.List.Basic

/-!
# AuditRelay.Proofs.Store.Walk — a directory that is there need not be created

Creating a directory that a path leads to already changes nothing (`makeDirectory_of_reached`).
The path is walked several times for that, with the last part taken for an entry or for a directory,
and without its empty parts; `Covers` says which such changes of the parts do no harm to a walk
that ends in a directory.
-/

namespace AuditRelay

namespace Volume

/-- The second list of parts leads to a place on the way of the first, if that ends in a
directory. -/
inductive Covers : List String → List String → Prop where
  | nil : Covers [] []
  | same (part : String) {ps qs : List String} (h : Covers ps qs) : Covers (part :: ps) (part :: qs)
  /-- An empty part says nothing. -/
  | skip {ps qs : List String} (h : Covers ps qs) : Covers ("" :: ps) qs
  /-- Before a dot, or two, there is a directory. -/
  | dots {part : String} (h : part = "." ∨ part = "..") : Covers [part] [""]

namespace Covers

theorem append_left (ps : List String) {qs rs : List String} (h : Covers qs rs) :
    Covers (ps ++ qs) (ps ++ rs) := by
  induction ps with
  | nil => exact h
  | cons part ps ih => exact .same part ih

theorem filter (ps : List String) : Covers ps (ps.filter (· ≠ "")) := by
  induction ps with
  | nil => exact .nil
  | cons part ps ih =>
    by_cases hp : part = ""
    · subst hp
      exact .skip ih
    · have hcons : (part :: ps).filter (· ≠ "") = part :: ps.filter (· ≠ "") := by
        simp [hp]
      rw [hcons]
      exact .same part ih

end Covers

/-- A walk that ends in a directory. -/
def EndsInDirectory (r : Except SystemFault Spot) : Prop :=
  ∃ names es mode links, r = .ok ⟨names, some (.directory es mode), links⟩

/-- A walk that ends at something that is there. -/
def EndsSomewhere (r : Except SystemFault Spot) : Prop :=
  ∃ names node links, r = .ok ⟨names, some node, links⟩

theorem EndsInDirectory.somewhere {r : Except SystemFault Spot} (h : EndsInDirectory r) :
    EndsSomewhere r := by
  obtain ⟨names, es, mode, links, rfl⟩ := h
  exact ⟨names, _, links, rfl⟩

theorem not_endsInDirectory_error (f : SystemFault) : ¬ EndsInDirectory (.error f) := by
  rintro ⟨names, es, mode, links, h⟩
  cases h

theorem walk_eq_walkBy (root : Node) (aim : Aim) (links : Nat) :
    ∃ follow, walk root aim links = walkBy root aim links follow := by
  cases links <;> exact ⟨_, rfl⟩

theorem walk_nil (root : Node) (aim : Aim) (links : Nat) (up : List String) (node : Node) :
    walk root aim links up node [] = .ok ⟨up.reverse, some node, links⟩ := by
  obtain ⟨follow, hw⟩ := walk_eq_walkBy root aim links
  rw [hw, walkBy]

/-- Only a directory is passed. -/
theorem walk_of_not_directory {root node : Node} {aim : Aim} {links : Nat} {up ps : List String}
    {part : String} (h : ∀ es mode, node ≠ .directory es mode) :
    walk root aim links up node (part :: ps) = .error .notADirectory := by
  cases node with
  | directory es mode => exact absurd rfl (h es mode)
  | file | link | sink | full =>
    obtain ⟨follow, hw⟩ := walk_eq_walkBy root aim links
    rw [hw]
    rfl

/-- The walk over one more part, for what it leads to or for the entry. -/
theorem walk_directory (root : Node) {aim : Aim} (ha : aim ≠ .file) (links : Nat)
    (up : List String) (es : Entries) (mode : Nat) (part : String) (rest : List String) :
    walk root aim links up (.directory es mode) (part :: rest) =
      if part = "" ∨ part = "." then walk root aim links up (.directory es mode) rest
      else if part = ".." then
        match find? root up.tail.reverse with
        | some above => walk root aim links up.tail above rest
        | none => .error .notFound
      else if maxName < part.utf8ByteSize then .error .nameTooLong
      else
        match Named.get? es part with
        | none =>
          if rest.isEmpty then .ok ⟨(part :: up).reverse, none, links⟩ else .error .notFound
        | some (.link target) =>
          if aim = .entry ∧ rest.isEmpty then
            .ok ⟨(part :: up).reverse, some (.link target), links⟩
          else
            match links with
            | 0 => .error .tooManyLinks
            | links + 1 =>
              if target.toList.head? = some '/' then
                walk root aim links [] root (parts target ++ rest)
              else walk root aim links up (.directory es mode) (parts target ++ rest)
        | some below => walk root aim links (part :: up) below rest := by
  -- each case is a branch of the walk, for no links and for more
  by_cases hdot : part = "" ∨ part = "."
  · cases links <;> simp [walk, walkBy, hdot]
  · by_cases hdots : part = ".."
    · subst hdots
      cases hf : find? root up.tail.reverse <;> cases links <;> simp [walk, walkBy, hf]
    · cases hg : Named.get? es part with
      | none => cases links <;> simp [walk, walkBy, ha, hdot, hdots, hg]
      | some below =>
        cases below with
        | link target => cases links <;> simp [walk, walkBy, ha, hdot, hdots, hg]
        | file | directory | sink | full =>
          cases links <;> simp [walk, walkBy, ha, hdot, hdots, hg]

/-- A walk over a part that ends in a directory begins in one. -/
theorem exists_directory_of_walk {root node : Node} {aim : Aim} {links : Nat} {up ps : List String}
    {part : String} (h : EndsInDirectory (walk root aim links up node (part :: ps))) :
    ∃ es mode, node = .directory es mode := by
  cases node with
  | directory es mode => exact ⟨es, mode, rfl⟩
  | file | link | sink | full =>
    rw [walk_of_not_directory (by intro es mode; exact Node.noConfusion)] at h
    exact absurd h (not_endsInDirectory_error _)

/-- A part that is the name of an entry, and not too long for one. -/
structure IsName (part : String) : Prop where
  not_dot : ¬ (part = "" ∨ part = ".")
  not_dots : part ≠ ".."
  short : ¬ maxName < part.utf8ByteSize

/-- From a directory a part that is no link leads to a node. -/
inductive Enters (root : Node) (up : List String) (es : Entries) (mode : Nat) (part : String) :
    List String → Node → Prop where
  | stay (h : part = "" ∨ part = ".") : Enters root up es mode part up (.directory es mode)
  | back {above : Node} (h : part = "..") (hf : find? root up.tail.reverse = some above) :
    Enters root up es mode part up.tail above
  | down {below : Node} (h : IsName part) (hg : Named.get? es part = some below)
    (hl : ∀ target, below ≠ .link target) : Enters root up es mode part (part :: up) below

/-- Where the target of a link is looked up. -/
def linkStart (root node : Node) (up : List String) (target : String) : List String × Node :=
  if target.toList.head? = some '/' then ([], root) else (up, node)

section

variable {root : Node} {aim : Aim} {links : Nat} {up up' : List String} {es : Entries} {mode : Nat}
  {part target : String} {node node' : Node}

theorem Enters.walk (h : Enters root up es mode part up' node') (ha : aim ≠ .file) (links : Nat)
    (rest : List String) :
    walk root aim links up (.directory es mode) (part :: rest) =
      walk root aim links up' node' rest := by
  rw [walk_directory root ha]
  cases h with
  | stay hdot => rw [if_pos hdot]
  | back hdots hf =>
    subst hdots
    rw [if_neg (by decide), if_pos rfl, hf]
  | down hn hg hl =>
    rw [if_neg hn.not_dot, if_neg hn.not_dots, if_neg hn.short, hg]
    cases node' with
    | link target => exact absurd rfl (hl target)
    | file | directory | sink | full => rfl

/-- The walk goes on from the start of the link with its target in front, unless it is for the link
itself. -/
theorem IsName.walk_link (hn : IsName part) (hg : Named.get? es part = some (.link target))
    (ha : aim ≠ .file) (links : Nat) (up : List String) (rest : List String) :
    walk root aim (links + 1) up (.directory es mode) (part :: rest) =
      if aim = .entry ∧ rest.isEmpty then
        .ok ⟨(part :: up).reverse, some (.link target), links + 1⟩
      else
        walk root aim links (linkStart root (.directory es mode) up target).1
          (linkStart root (.directory es mode) up target).2 (parts target ++ rest) := by
  rw [walk_directory root ha, if_neg hn.not_dot, if_neg hn.not_dots, if_neg hn.short, hg, linkStart]
  by_cases habs : target.toList.head? = some '/'
  · simp only [if_pos habs]
  · simp only [if_neg habs]

/-- A walk that ends in a directory enters a node, or it follows a link. -/
theorem enters_or_link {rest : List String}
    (h : EndsInDirectory (walk root .thing links up (.directory es mode) (part :: rest))) :
    (∃ up' node', Enters root up es mode part up' node') ∨
    ∃ target links', IsName part ∧ Named.get? es part = some (.link target) ∧
      links = links' + 1 := by
  rw [walk_directory root (by decide)] at h
  by_cases hdot : part = "" ∨ part = "."
  · exact .inl ⟨_, _, .stay hdot⟩
  by_cases hdots : part = ".."
  · rw [if_neg hdot, if_pos hdots] at h
    cases hf : find? root up.tail.reverse with
    | none =>
      rw [hf] at h
      exact absurd h (not_endsInDirectory_error _)
    | some above => exact .inl ⟨_, _, .back hdots hf⟩
  by_cases hlong : maxName < part.utf8ByteSize
  · rw [if_neg hdot, if_neg hdots, if_pos hlong] at h
    exact absurd h (not_endsInDirectory_error _)
  have hn : IsName part := ⟨hdot, hdots, hlong⟩
  rw [if_neg hdot, if_neg hdots, if_neg hlong] at h
  cases hg : Named.get? es part with
  | none =>
    rw [hg] at h
    obtain ⟨names, es, mode, links, heq⟩ := h
    simp only at heq
    split at heq <;> cases heq
  | some below =>
    cases below with
    | link target =>
      rw [hg] at h
      cases links with
      | zero =>
        simp only [show Aim.thing ≠ Aim.entry by decide, false_and, if_false] at h
        exact absurd h (not_endsInDirectory_error _)
      | succ links => exact .inr ⟨target, links, hn, rfl, rfl⟩
    | file | directory | sink | full =>
      exact .inl ⟨_, _, .down hn hg fun target => Node.noConfusion⟩

theorem walk_covers {ps qs : List String} (ha : aim ≠ .file) (hc : Covers ps qs)
    (h : EndsInDirectory (walk root .thing links up node ps)) :
    EndsSomewhere (walk root aim links up node qs) ∧
    (aim = .thing → EndsInDirectory (walk root aim links up node qs)) := by
  -- a link costs one of those that may be followed, and anything else makes the parts fewer
  induction links using Nat.strongRecOn generalizing up node ps qs with
  | ind links ihl =>
  induction hc generalizing up node with
  | nil =>
    rw [walk_nil] at h ⊢
    exact ⟨h.somewhere, fun _ => h⟩
  | skip hc ih =>
    obtain ⟨es, mode, rfl⟩ := exists_directory_of_walk h
    rw [(Enters.stay (.inl rfl)).walk (by decide)] at h
    exact ih h
  | dots hd =>
    obtain ⟨es, mode, rfl⟩ := exists_directory_of_walk h
    rw [(Enters.stay (.inl rfl)).walk ha, walk_nil]
    exact ⟨⟨_, _, _, rfl⟩, fun _ => ⟨_, _, _, _, rfl⟩⟩
  | @same part ps qs hc ih =>
    obtain ⟨es, mode, rfl⟩ := exists_directory_of_walk h
    rcases enters_or_link h with ⟨up', node', henters⟩ | ⟨target, links, hn, hg, rfl⟩
    · rw [henters.walk (by decide)] at h
      rw [henters.walk ha]
      exact ih h
    · rw [hn.walk_link hg (by decide), if_neg (fun hentry => absurd hentry.1 (by decide))] at h
      rw [hn.walk_link hg ha]
      by_cases hentry : aim = .entry ∧ qs.isEmpty = true
      · rw [if_pos hentry]
        refine ⟨⟨_, _, _, rfl⟩, fun ht => ?_⟩
        rw [ht] at hentry
        exact absurd hentry.1 (by decide)
      · rw [if_neg hentry]
        -- the target stands in front of what is left of both
        exact ihl links (Nat.lt_succ_self _) (hc.append_left (parts target)) h

end

/-! ## Creating what is there -/

theorem createDirectory_of_endsInDirectory {root : Node} {ps : List String} (mode : Nat)
    (h : EndsInDirectory (locate root .thing ps)) :
    createDirectory mode root ps = .error .alreadyExists := by
  have hfilter := Covers.filter ps
  simp only [createDirectory]
  split
  · -- the directory before the dots
    rename_i hlast
    obtain ⟨names, es, m, links, hnames⟩ := (walk_covers (by decide) hfilter h).2 rfl
    cases hp : (ps.filter (· ≠ "")).getLast? with
    | none =>
      rw [hp] at hlast
      exact absurd hlast (by simp)
    | some part =>
      obtain ⟨front, hfront⟩ := List.getLast?_eq_some_iff.mp hp
      rw [hp] at hlast
      have hdots : part = "." ∨ part = ".." := by simpa using hlast
      have hc : Covers (ps.filter (· ≠ "")) (front ++ [""]) := by
        rw [hfront]
        exact (Covers.dots hdots).append_left front
      obtain ⟨names', es', m', links', hend⟩ :=
        (walk_covers (by decide) hc ⟨names, es, m, links, hnames⟩).2 rfl
      have hdrop : (ps.filter (· ≠ "")).dropLast = front := by
        rw [hfront, List.dropLast_concat]
      rw [hdrop, locate, hend]
      rfl
  · obtain ⟨names, node, links, hend⟩ := (walk_covers (show Aim.entry ≠ .file by decide) hfilter h).1
    rw [locate, hend]

theorem createDirectories_of_endsInDirectory {root : Node} {path : String} {limit : Nat}
    (mode : Nat) (hp : pathFault? limit path = none)
    (h : EndsInDirectory (locate root .thing (parts path))) :
    createDirectories mode limit root path = (.ok (), root) := by
  have hdir : isDirectory root (parts path) = true := by
    obtain ⟨names, es, m, links, hend⟩ := h
    rw [isDirectory, hend]
  simp only [createDirectories, hp, createAfter, createDirectory_of_endsInDirectory mode h, hdir,
    if_true]

end Volume

/-- Creating the directory that the disk is in already changes nothing. -/
theorem Disk.makeDirectory_of_reached {d : Disk} {path : String} {r : Reached}
    (hd : d.directory = .ok r) (hr : Disk.reach d.host.pathLimit d.root path = .ok r)
    (hw : d.host.refuse d.calls = none) :
    d.makeDirectory path = (.ok (), { d with calls := d.calls + 1 }) := by
  have hreach := hr
  simp only [reach] at hr
  split at hr
  · contradiction
  · rename_i hp
    have hend : Volume.EndsInDirectory (Volume.locate d.root .thing (Volume.parts path)) := by
      split at hr
      · contradiction
      · rename_i names es mode links heq
        exact ⟨names, es, mode, links, heq⟩
      · contradiction
      · contradiction
    have hcreate := Volume.createDirectories_of_endsInDirectory privateDirectory hp hend
    simp only [makeDirectory, perform, call, hw, hcreate, hreach, ← hd]

end AuditRelay
