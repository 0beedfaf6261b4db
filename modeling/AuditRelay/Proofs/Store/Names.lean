import AuditRelay.Proofs.Text.Digits
import AuditRelay.Store.Spool.Names
import Mathlib.Data.List.Infix

/-!
# AuditRelay.Proofs.Store.Names — what a spool's file names tell apart

The names of event files stand in the order of their stamps as long as these have twenty digits
(`fileName_lt_fileName`), a stamp is read back from its name (`stamp?_fileName`), and neither the
dead letters nor a file that is being prepared count as event files.
-/

namespace AuditRelay.Spool

/-- Stamps below it have at most twenty digits. -/
def stampLimit : Nat := 10 ^ 20

theorem stampLimit_le_maxStamp : stampLimit ≤ maxStamp := by decide

@[simp]
theorem toList_fileName (stem : String) (n : Nat) :
    (fileName stem n).toList = stem.toList ++ Text.padded 20 n ++ fileSuffix.toList := by
  rw [fileName, String.toList_ofList]

@[simp]
theorem toList_tempName (name : String) :
    (tempName name).toList = '.' :: name.toList ++ ".tmp".toList := by
  rw [tempName, String.toList_ofList]

/-! ## Order -/

/-- Sequences of one length stand in the same order with others behind them. -/
theorem append_lt_append {as bs : List Char} (hl : as.length = bs.length) (h : as < bs)
    (cs ds : List Char) : as ++ cs < bs ++ ds := by
  induction as generalizing bs with
  | nil =>
    cases bs with
    | nil => exact absurd h (lt_irrefl _)
    | cons b bs => exact absurd hl (by simp)
  | cons a as ih =>
    cases bs with
    | nil => exact absurd hl (by simp)
    | cons b bs =>
      rw [List.cons_lt_cons_iff] at h
      rw [List.cons_append, List.cons_append, List.cons_lt_cons_iff]
      rcases h with h | ⟨rfl, h⟩
      · exact .inl h
      · exact .inr ⟨rfl, ih (by simpa using hl) h⟩

theorem fileName_lt_fileName {n m : Nat} (stem : String) (h : n < m) (hm : m < stampLimit) :
    fileName stem n < fileName stem m := by
  have hp : Text.padded 20 n < Text.padded 20 m := Text.padded_lt_padded (by decide) h hm
  have hl : (Text.padded 20 n).length = (Text.padded 20 m).length := by
    rw [Text.length_padded (by decide) (h.trans hm), Text.length_padded (by decide) hm]
  rw [String.lt_iff_toList_lt, toList_fileName, toList_fileName, List.append_assoc,
    List.append_assoc]
  exact List.append_left_lt (append_lt_append hl hp _ _)

/-! ## Event files and others -/

theorem eventStem_starts (n : Nat) : eventStem.toList <+: (fileName eventStem n).toList := by
  rw [toList_fileName, List.append_assoc]
  exact List.prefix_append _ _

theorem fileSuffix_ends (stem : String) (n : Nat) :
    fileSuffix.toList <:+ (fileName stem n).toList := by
  rw [toList_fileName]
  exact List.suffix_append _ _

theorem stem_prefix_of_isEventFile {name : String} (h : isEventFile name = true) :
    eventStem.toList <+: name.toList := by
  simp only [isEventFile, Bool.and_eq_true] at h
  exact List.isPrefixOf_iff_prefix.mp h.1.1

theorem isEventFile_fileName (n : Nat) : isEventFile (fileName eventStem n) = true := by
  have hletters : deadLetterStem.toList.isPrefixOf (fileName eventStem n).toList = false := by
    -- a digit stands where the other stem goes on with a letter
    rw [Bool.eq_false_iff, ne_eq, List.isPrefixOf_iff_prefix, toList_fileName, List.append_assoc]
    have hstem : deadLetterStem.toList = eventStem.toList ++ "deadletter-".toList := by decide
    rw [hstem, List.prefix_append_right_inj]
    obtain ⟨c, cs, hcs⟩ := List.exists_cons_of_ne_nil (Text.padded_ne_nil 20 n)
    have hdigit : c.isDigit = true := Text.isDigit_of_mem_padded (by rw [hcs]; simp)
    rw [hcs]
    intro hp
    have hd : 'd' = c := (List.cons_prefix_cons.mp hp).1
    subst hd
    exact absurd hdigit (by decide)
  have hstem := List.isPrefixOf_iff_prefix.mpr (eventStem_starts n)
  have hsuffix := List.isSuffixOf_iff_suffix.mpr (fileSuffix_ends eventStem n)
  simp only [isEventFile, hstem, hletters, hsuffix, Bool.not_false, Bool.and_self]

theorem isEventFile_deadLetters (n : Nat) : isEventFile (fileName deadLetterStem n) = false := by
  have hstem : deadLetterStem.toList.isPrefixOf (fileName deadLetterStem n).toList = true := by
    rw [List.isPrefixOf_iff_prefix, toList_fileName, List.append_assoc]
    exact List.prefix_append _ _
  simp only [isEventFile, hstem, Bool.not_true, Bool.and_false, Bool.false_and]

theorem isEventFile_tempName (name : String) : isEventFile (tempName name) = false := by
  have hstem : eventStem.toList.isPrefixOf (tempName name).toList = false := by
    rw [toList_tempName]
    rfl
  simp only [isEventFile, hstem, Bool.false_and]

theorem ne_deadLetters {name : String} (h : isEventFile name = true) (n : Nat) :
    name ≠ fileName deadLetterStem n := by
  rintro rfl
  rw [isEventFile_deadLetters] at h
  contradiction

theorem ne_deadLetters_tempName (name : String) (n : Nat) :
    tempName name ≠ fileName deadLetterStem n := by
  intro h
  have hstem : deadLetterStem.toList = 'a' :: "udit-events-deadletter-".toList := by decide
  have hl := congrArg String.toList h
  rw [toList_tempName, toList_fileName, hstem] at hl
  have hfirst : '.' = 'a' := (List.cons.inj hl).1
  exact absurd hfirst (by decide)

/-- A file that holds no events: dead letters, or what will replace an event file. -/
inductive IsAside : String → Prop where
  | deadLetters (n : Nat) : IsAside (fileName deadLetterStem n)
  | temp (name : String) (h : isEventFile name = true) : IsAside (tempName name)

theorem IsAside.not_isEventFile {name : String} (h : IsAside name) : isEventFile name = false := by
  cases h with
  | deadLetters n => exact isEventFile_deadLetters n
  | temp name _ => exact isEventFile_tempName name

/-! ## Length -/

theorem utf8Len_of_isDigit {cs : List Char} (h : ∀ c ∈ cs, c.isDigit = true) :
    String.utf8Len cs = cs.length := by
  induction cs with
  | nil => rfl
  | cons c cs ih =>
    have hc := Text.isDigit_bounds (h c List.mem_cons_self)
    have hsize : c.utf8Size = 1 := Char.utf8Size_eq_one_iff.mpr (UInt32.le_iff_toNat_le.mpr (by
      have h0 : c.val.toNat = c.toNat := rfl
      rw [h0]
      exact hc.2.trans (by decide)))
    rw [String.utf8Len_cons, ih fun c hc => h c (List.mem_cons_of_mem _ hc), hsize,
      List.length_cons]

/-- A stamp takes twenty octets of a name. -/
theorem utf8ByteSize_stamped (stem : String) {n : Nat} (h : n < stampLimit) :
    (fileName stem n).utf8ByteSize =
      String.utf8Len stem.toList + 20 + String.utf8Len fileSuffix.toList := by
  have hd : String.utf8Len (Text.padded 20 n) = 20 := by
    rw [utf8Len_of_isDigit fun c hc => Text.isDigit_of_mem_padded hc,
      Text.length_padded (by decide) h]
  rw [fileName, String.utf8ByteSize_ofList, String.utf8Len_append, String.utf8Len_append, hd]

/-- The names of event files have thirty-nine octets. -/
theorem utf8ByteSize_fileName {n : Nat} (h : n < stampLimit) :
    (fileName eventStem n).utf8ByteSize = 39 := by
  rw [utf8ByteSize_stamped eventStem h]
  rfl

/-! ## Stamps -/

theorem stamp?_fileName {n : Nat} (h : n ≤ maxStamp) : stamp? (fileName eventStem n) = some n := by
  have hstem := List.isPrefixOf_iff_prefix.mpr (eventStem_starts n)
  have hsuffix := List.isSuffixOf_iff_suffix.mpr (fileSuffix_ends eventStem n)
  have hinner : (fileName eventStem n).toList.drop eventStem.length =
      Text.padded 20 n ++ fileSuffix.toList := by
    have hl : eventStem.length = eventStem.toList.length := rfl
    rw [toList_fileName, List.append_assoc, hl, List.drop_left]
  have hdigits : (Text.padded 20 n ++ fileSuffix.toList).take
      ((Text.padded 20 n ++ fileSuffix.toList).length - fileSuffix.length) =
        Text.padded 20 n := by
    have hl : fileSuffix.length = fileSuffix.toList.length := rfl
    rw [List.length_append, hl, Nat.add_sub_cancel, List.take_left]
  simp only [stamp?, hstem, hsuffix, Bool.and_self, if_true, hinner, hdigits]
  exact Text.unsigned?_padded h

/-- No two stamps share a file. -/
theorem fileName_injective {n m : Nat} (hn : n < stampLimit) (hm : m < stampLimit)
    (h : fileName eventStem n = fileName eventStem m) : n = m := by
  have hs : stamp? (fileName eventStem n) = stamp? (fileName eventStem m) := by rw [h]
  rw [stamp?_fileName (hn.le.trans stampLimit_le_maxStamp),
    stamp?_fileName (hm.le.trans stampLimit_le_maxStamp)] at hs
  exact Option.some.inj hs

end AuditRelay.Spool
