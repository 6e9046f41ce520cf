import BoostProcess.Library.Decimal
import BoostProcess.V2.ErrorCode
import BoostProcess.V2.Posix.CloseHandles

/-! close_all by close_range and by the entries of /dev/fd.

The first version computes the gaps of a sorted whitelist, the second one reads the number of each
open descriptor from the name of its entry. Both leave open what is in the whitelist.
-/

set_option autoImplicit false

namespace BoostProcess.V2.Posix

open Decimal Descriptors

variable {File : Type}

/-! ## The calls to close_range -/

def gapCalls : List Int → List (Int × Int)
  | [] => []
  | [back] => [(back + 1, openMax)]
  | mine :: next :: rest =>
    (if mine + 1 ≠ next ∧ mine ≠ next then [(mine + 1, next - 1)] else []) ++ gapCalls (next :: rest)

/-- The ranges that `close_all` passes to close_range, in order. -/
def closeAllCalls : List Int → List (Int × Int)
  | [] => [(0, openMax)]
  | front :: rest => (if front ≠ 0 then [(0, front - 1)] else []) ++ gapCalls (front :: rest)

def perform (calls : List (Int × Int)) (fds : Table File) : Table File :=
  calls.foldl (fun fds call => closeRange call.1 call.2 fds) fds

theorem perform_append (first second : List (Int × Int)) (fds : Table File) :
    perform (first ++ second) fds = perform second (perform first fds) := List.foldl_append

theorem perform_gapCalls (whitelist : List Int) (fds : Table File) :
    perform (gapCalls whitelist) fds = closeGaps whitelist fds := by
  induction whitelist generalizing fds with
  | nil => rfl
  | cons mine rest ih =>
    cases rest with
    | nil => rfl
    | cons next rest =>
      rw [gapCalls, closeGaps, perform_append, ih]
      by_cases gap : mine + 1 ≠ next ∧ mine ≠ next
      · rw [if_pos gap, if_pos gap]
        rfl
      · rw [if_neg gap, if_neg gap]
        rfl

theorem perform_closeAllCalls (whitelist : List Int) (fds : Table File) :
    perform (closeAllCalls whitelist) fds = closeAll whitelist fds := by
  cases whitelist with
  | nil => rfl
  | cons front rest =>
    rw [closeAllCalls, closeAll, perform_append, perform_gapCalls]
    by_cases positive : front ≠ 0
    · rw [if_pos positive, if_pos positive]
      rfl
    · rw [if_neg positive, if_neg positive]
      rfl

/-- A range of descriptor numbers that holds one at least. -/
def IsRange (call : Int × Int) : Prop := 0 ≤ call.1 ∧ call.1 ≤ call.2 ∧ call.2 ≤ openMax

theorem isRange_gapCalls {whitelist : List Int} (sorted : whitelist.Pairwise (· ≤ ·))
    (numbers : ∀ fd ∈ whitelist, IsNumber fd) : ∀ call ∈ gapCalls whitelist, IsRange call := by
  induction whitelist with
  | nil => simp [gapCalls]
  | cons mine rest ih =>
    obtain ⟨low, high⟩ := numbers mine List.mem_cons_self
    cases rest with
    | nil =>
      intro call member
      obtain rfl := List.mem_singleton.mp member
      exact ⟨by omega, by omega, le_refl _⟩
    | cons next rest =>
      obtain ⟨below, tail⟩ := List.pairwise_cons.mp sorted
      have ordered : mine ≤ next := below next List.mem_cons_self
      have last := (numbers next (by simp)).2
      intro call member
      cases List.mem_append.mp member with
      | inl here =>
        split at here
        · rename_i gap
          obtain rfl := List.mem_singleton.mp here
          exact ⟨by omega, by omega, by omega⟩
        · cases here
      | inr later => exact ih tail (fun fd found => numbers fd (List.mem_cons_of_mem mine found)) call later

theorem isRange_closeAllCalls {whitelist : List Int} (sorted : whitelist.Pairwise (· ≤ ·))
    (numbers : ∀ fd ∈ whitelist, IsNumber fd) : ∀ call ∈ closeAllCalls whitelist, IsRange call := by
  cases whitelist with
  | nil =>
    intro call member
    obtain rfl := List.mem_singleton.mp member
    exact ⟨le_refl _, by decide, le_refl _⟩
  | cons front rest =>
    obtain ⟨low, high⟩ := numbers front List.mem_cons_self
    intro call member
    cases List.mem_append.mp member with
    | inl here =>
      split at here
      · obtain rfl := List.mem_singleton.mp here
        exact ⟨le_refl _, by omega, by omega⟩
      · cases here
    | inr later => exact isRange_gapCalls sorted numbers call later

/-! ## The entries of /dev/fd -/

/-- What the system answers about /dev/fd. -/
structure DevFd (File : Type) where
  opendir : Except Errno (Int × Descriptor File)
  dirfd : Except Errno Int
  /-- The names that readdir gives one after the other. -/
  names : List (List UInt8)

/-- The body of the loop over the entries. -/
def closeEntry (dirFd : Int) (whitelist : List Int) (fds : Table File) (name : List UInt8) : Table File :=
  if name.getD 0 0 = 46 then fds
  else
    let conv := atoi name
    if conv = 0 ∧ name.getD 0 0 ≠ 48 ∧ name.getD 1 0 ≠ 0 then fds
    else if conv = dirFd ∨ conv ∈ whitelist then fds
    else fds.close conv

/-- `close_all` where there is no close_range. The directory is closed in any case. -/
def closeAllDevFd (os : DevFd File) (whitelist : List Int) (fds : Table File) : ErrorCode × Table File :=
  match os.opendir with
  | .error errno => (.system errno.code, fds)
  | .ok (fd, descriptor) =>
    let fds : Table File := Function.update fds fd (some descriptor)
    match os.dirfd with
    | .error errno => (.system errno.code, fds.close fd)
    | .ok dirFd => (.clear, (os.names.foldl (closeEntry dirFd whitelist) fds).close fd)

/-- /dev/fd, opened by a process: a new descriptor, and an entry for each open one. -/
structure OpenDirectory (fds : Table File) where
  fd : Int
  descriptor : Descriptor File
  number : IsNumber fd
  fresh : fds fd = none
  names : List (List UInt8)
  listed : ∀ name, name ∈ names ↔ name = [46] ∨ name = [46, 46] ∨
    ∃ number : Nat, Table.Open (Function.update fds fd (some descriptor)) number ∧ name = text number

def OpenDirectory.system {fds : Table File} (directory : OpenDirectory fds) : DevFd File :=
  ⟨.ok (directory.fd, directory.descriptor), .ok directory.fd, directory.names⟩

/-- The entries of a process with finitely many open descriptors. -/
def OpenDirectory.ofNumbers {fds : Table File} {fd : Int} (descriptor : Descriptor File) (number : IsNumber fd)
    (fresh : fds fd = none)
    (numbers : List Nat)
    (complete : ∀ number : Nat, Table.Open (Function.update fds fd (some descriptor)) number ↔ number ∈ numbers) :
    OpenDirectory fds where
  fd
  descriptor
  number
  fresh
  names := [46] :: [46, 46] :: numbers.map text
  listed name := by
    have named : name ∈ numbers.map text ↔ ∃ number, number ∈ numbers ∧ name = text number := by
      rw [List.mem_map]
      exact exists_congr fun number => and_congr_right fun _ => eq_comm
    simp only [List.mem_cons, named, complete]

/-- A process without open descriptors sees the one of the directory. -/
example : OpenDirectory (fun _ => none : Table Unit) :=
  .ofNumbers ⟨(), false⟩ (show IsNumber 0 by decide) rfl [0] fun number => by
    by_cases own : number = 0 <;> simp [Table.Open, own]

theorem closeEntry_dots (dirFd : Int) (whitelist : List Int) (fds : Table File) (rest : List UInt8) :
    closeEntry dirFd whitelist fds (46 :: rest) = fds := rfl

/-- An entry with the number of a descriptor closes it, if it is no exception. -/
theorem closeEntry_text (dirFd : Int) (whitelist : List Int) (fds : Table File) {number : Nat} (small : number < 2 ^ 31) :
    closeEntry dirFd whitelist fds (text number) =
      if (number : Int) = dirFd ∨ (number : Int) ∈ whitelist then fds else fds.close number := by
  have no_dot : (text number).getD 0 0 ≠ 46 := ne_of_isDigit (isDigit_first number) rfl
  have read : ¬ ((number : Int) = 0 ∧ (text number).getD 0 0 ≠ 48 ∧ (text number).getD 1 0 ≠ 0) := by
    intro skipped
    have zero : number = 0 := Int.natCast_eq_zero.mp skipped.1
    subst zero
    exact skipped.2.1 (by decide)
  simp only [closeEntry, if_neg no_dot, atoi_text small, if_neg read]

/-- The loop closes the listed numbers, but not the directory and the whitelist. -/
theorem foldl_closeEntry {names : List (List UInt8)} (dirFd : Int) (whitelist : List Int) (fds : Table File)
    (entries : ∀ name ∈ names, name.head? = some 46 ∨ ∃ number : Nat, number < 2 ^ 31 ∧ name = text number) (number : Nat) :
    names.foldl (closeEntry dirFd whitelist) fds number =
      if text number ∈ names ∧ ¬ ((number : Int) = dirFd ∨ (number : Int) ∈ whitelist) then none else fds number := by
  induction names generalizing fds with
  | nil => simp
  | cons name rest ih =>
    obtain ⟨entry, later⟩ := List.forall_mem_cons.mp entries
    rw [List.foldl_cons, ih _ later]
    rcases entry with dot | ⟨listed, small, rfl⟩
    · obtain ⟨behind, rfl⟩ : ∃ behind, name = 46 :: behind := ⟨name.tail, (List.eq_cons_of_mem_head? dot)⟩
      have other : text number ≠ 46 :: behind := by
        intro same
        have dot_inside : 46 ∈ text number := by
          rw [same]
          exact List.mem_cons_self
        exact not_mem_text rfl number dot_inside
      rw [closeEntry_dots]
      simp only [List.mem_cons, other, false_or]
    · rw [closeEntry_text dirFd whitelist fds small]
      by_cases same : number = listed
      · subst same
        by_cases exempt : (number : Int) = dirFd ∨ (number : Int) ∈ whitelist
        · simp [exempt]
        · simp [exempt, Table.close]
      · have other : text number ≠ text listed := fun texts => same (text_injective texts)
        have different : (number : Int) ≠ listed := fun numbers => same (Int.ofNat.inj numbers)
        have kept : (if (listed : Int) = dirFd ∨ (listed : Int) ∈ whitelist then fds else fds.close listed) number =
            fds number := by
          split
          · rfl
          · exact Table.close_of_ne fds different
        simp only [List.mem_cons, other, false_or, kept]

theorem closeEntry_none (dirFd : Int) (whitelist : List Int) {fds : Table File} (name : List UInt8) {number : Int}
    (closed : fds number = none) : closeEntry dirFd whitelist fds name number = none := by
  have after : fds.close (atoi name) number = none := by
    by_cases same : number = atoi name
    · simp [Table.close, same]
    · rw [Table.close_of_ne fds same, closed]
  simp only [closeEntry]
  split_ifs <;> assumption

theorem foldl_closeEntry_none (dirFd : Int) (whitelist : List Int) (names : List (List UInt8)) {fds : Table File}
    {number : Int} (closed : fds number = none) : names.foldl (closeEntry dirFd whitelist) fds number = none := by
  induction names generalizing fds with
  | nil => exact closed
  | cons name rest ih => exact ih (closeEntry_none dirFd whitelist name closed)

/-! ## Both versions -/

/-- The open descriptors of a process. -/
structure OpenFds (File : Type) where
  fds : Table File
  numbered : ∀ number, fds.Open number → IsNumber number

/-- What close_all_fds passes: sorted, possibly with duplicates. -/
structure SortedWhitelist where
  entries : List Int
  sorted : entries.Pairwise (· ≤ ·)
  numbers : ∀ fd ∈ entries, IsNumber fd

theorem OpenFds.closed (process : OpenFds File) {number : Int} (outside : ¬ IsNumber number) : process.fds number = none :=
  Option.not_isSome_iff_eq_none.mp fun is_open => outside (process.numbered number is_open)

theorem closeAll_retain (process : OpenFds File) (whitelist : SortedWhitelist) :
    closeAll whitelist.entries process.fds = process.fds.retain whitelist.entries := by
  funext number
  by_cases inside : IsNumber number
  · apply closeAll_apply whitelist.sorted _ process.fds inside.1 (le_of_lt inside.2)
    intro fd member
    have numbered := whitelist.numbers fd member
    exact ⟨numbered.1, le_of_lt numbered.2⟩
  · have closed := process.closed inside
    have nothing : process.fds.retain whitelist.entries number = none := by simp [Table.retain, closed]
    rw [nothing]
    rcases closeAll_cases whitelist.entries process.fds number with gone | same
    · exact gone
    · rw [same, closed]

theorem open_directory {process : OpenFds File} (directory : OpenDirectory process.fds) {number : Int}
    (is_open : Table.Open (Function.update process.fds directory.fd (some directory.descriptor)) number) : IsNumber number := by
  by_cases same : number = directory.fd
  · exact same ▸ directory.number
  · rw [Table.Open, Function.update_of_ne same] at is_open
    exact process.numbered number is_open

theorem listed_entries {process : OpenFds File} (directory : OpenDirectory process.fds) :
    ∀ name ∈ directory.names, name.head? = some 46 ∨ ∃ number : Nat, number < 2 ^ 31 ∧ name = text number := by
  intro name member
  rcases (directory.listed name).mp member with rfl | rfl | ⟨listed, is_open, rfl⟩
  · exact .inl rfl
  · exact .inl rfl
  · have small := (open_directory directory is_open).2
    unfold openMax at small
    exact .inr ⟨listed, by omega, rfl⟩

/-- Whatever else was open is closed by the loop, unless it is in the whitelist. -/
theorem foldl_names (process : OpenFds File) (whitelist : List Int) (directory : OpenDirectory process.fds) {number : Int}
    (other : number ≠ directory.fd) :
    directory.names.foldl (closeEntry directory.fd whitelist)
      (Function.update process.fds directory.fd (some directory.descriptor)) number = process.fds.retain whitelist number := by
  have before : Function.update process.fds directory.fd (some directory.descriptor) number = process.fds number :=
    Function.update_of_ne other _ _
  cases entry : process.fds number with
  | none =>
    rw [foldl_closeEntry_none _ _ _ (before.trans entry)]
    simp [Table.retain, entry]
  | some descriptor =>
    have is_open : process.fds.Open number := by simp [Table.Open, entry]
    obtain ⟨digits, rfl⟩ := Int.eq_ofNat_of_zero_le (process.numbered number is_open).1
    have named : text digits ∈ directory.names := by
      apply (directory.listed _).mpr
      exact .inr (.inr ⟨digits, by rw [Table.Open, before]; exact is_open, rfl⟩)
    rw [foldl_closeEntry _ _ _ (listed_entries directory), before]
    by_cases kept : (digits : Int) ∈ whitelist
    · simp [Table.retain, kept]
    · simp [Table.retain, kept, named, other]

theorem closeAllDevFd_retain (process : OpenFds File) (whitelist : SortedWhitelist) (directory : OpenDirectory process.fds) :
    closeAllDevFd directory.system whitelist.entries process.fds = (.clear, process.fds.retain whitelist.entries) := by
  change (ErrorCode.clear, (directory.names.foldl (closeEntry directory.fd whitelist.entries)
    (Function.update process.fds directory.fd (some directory.descriptor))).close directory.fd) = _
  congr 1
  funext number
  by_cases own : number = directory.fd
  · subst own
    simp [Table.close, Table.retain, directory.fresh]
  · rw [Table.close_of_ne _ own]
    exact foldl_names process whitelist.entries directory own

/-- close_range is called for ranges that hold a number, which closes what is not in the
whitelist. The loop over /dev/fd leaves the same table. -/
theorem closeAll_versions (process : OpenFds File) (whitelist : SortedWhitelist) (directory : OpenDirectory process.fds) :
    closeAll whitelist.entries process.fds = perform (closeAllCalls whitelist.entries) process.fds ∧
      (∀ call ∈ closeAllCalls whitelist.entries, IsRange call) ∧
      closeAll whitelist.entries process.fds = process.fds.retain whitelist.entries ∧
      closeAllDevFd directory.system whitelist.entries process.fds = (.clear, closeAll whitelist.entries process.fds) := by
  have retained := closeAll_retain process whitelist
  refine ⟨(perform_closeAllCalls _ _).symm, isRange_closeAllCalls whitelist.sorted whitelist.numbers, retained, ?_⟩
  rw [retained]
  exact closeAllDevFd_retain process whitelist directory

/-- A process that has its standard streams. -/
def standardStreams : OpenFds Unit where
  fds number := if 0 ≤ number ∧ number < 3 then some ⟨(), false⟩ else none
  numbered number is_open := by
    by_cases inside : 0 ≤ number ∧ number < 3
    · exact ⟨inside.1, by unfold openMax; omega⟩
    · simp [Table.Open, inside] at is_open

def withoutOutput : SortedWhitelist where
  entries := [0, 2, 2]
  sorted := by simp
  numbers := by simp [IsNumber, openMax]

theorem isNumber_three : IsNumber 3 := by decide

/-- It opens the directory as 3. -/
def standardEntries : OpenDirectory standardStreams.fds :=
  .ofNumbers ⟨(), true⟩ isNumber_three rfl [0, 1, 2, 3] fun number => by
    by_cases own : (number : Int) = 3
    · simp [Table.Open, own]
      omega
    · simp [Table.Open, standardStreams, own]
      omega

theorem closeAll_versions_streams :
    closeAllDevFd standardEntries.system [0, 2, 2] standardStreams.fds =
        (.clear, perform [(1, 1), (3, openMax)] standardStreams.fds) ∧
      (closeAll [0, 2, 2] standardStreams.fds).Open 2 ∧ ¬(closeAll [0, 2, 2] standardStreams.fds).Open 1 := by
  obtain ⟨performed, -, retained, same⟩ := closeAll_versions standardStreams withoutOutput standardEntries
  refine ⟨same.trans (congrArg _ performed), ?_, ?_⟩
  · exact retained ▸ rfl
  · rw [show closeAll [0, 2, 2] standardStreams.fds = _ from retained]
    decide

end BoostProcess.V2.Posix
