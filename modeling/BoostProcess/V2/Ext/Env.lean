import BoostProcess.Library.Blocks
import BoostProcess.V2.CharType

/-! ext::env: the environment of another process as one block, and the view that steps
through it.

Linux reads a file in pages, the BSDs copy the strings that libkvm returns, macOS scans the
argument area of the process, and Windows reads the memory of the process. The element
behind everything is not the same, nor is the way in which find_end looks for it.
-/

set_option autoImplicit false

namespace BoostProcess.V2.Ext

open Blocks

/-- What may be an entry of an environment. -/
def Entry {Code : Type} [OfNat Code 0] (entry : List Code) : Prop := entry ≠ [] ∧ 0 ∉ entry

instance {Code : Type} [OfNat Code 0] [DecidableEq Code] (entry : List Code) : Decidable (Entry entry) :=
  inferInstanceAs (Decidable (_ ∧ _))

/-- `detail::ext::next` and `detail::ext::dereference`, the same on all systems. -/
def next {Code : Type} [OfNat Code 0] [DecidableEq Code] (nh : List Code) : Option (List Code) := after 0 nh

def dereference {Code : Type} [OfNat Code 0] [DecidableEq Code] (iterator : List Code) : Option (List Code) :=
  text 0 iterator

namespace Linux

def pageSize : Nat := 4096

/-- What `read(f, buf, 4096)` delivers of what is left of a file. -/
def read (file : List UInt8) : List UInt8 := file.take pageSize

/-- The loop that reads /proc/pid/environ: what is left of the file, and what procargs holds.
The last buffer has room for a whole page; `fresh` is what the allocation leaves there. -/
def readPages (isSigned : Bool) (fresh : Nat → UInt8) (file procargs : List UInt8) : List UInt8 :=
  if (read file).length < pageSize then
    -- done: EOF is stored behind the file
    procargs ++ read file ++ 0xff :: (List.range (pageSize - (read file).length - 1)).map fresh
  else if (read file).getLast?.map (promote isSigned) = some eof then procargs ++ read file
  else readPages isSigned fresh (file.drop pageSize) (procargs ++ read file)
termination_by file.length
decreasing_by
  simp only [read, pageSize, List.length_take, List.length_drop] at *
  omega

/-- `ext::env` with the content of /proc/pid/environ. -/
def env (isSigned : Bool) (fresh : Nat → UInt8) (environ : List UInt8) : List UInt8 :=
  readPages isSigned fresh environ []

def findEnd (isSigned : Bool) (nh : List UInt8) : Option (List UInt8) :=
  seek (fun char => promote isSigned char = eof) nh

/-- The loop over an env_view gives these entries. -/
def EnvView (isSigned : Bool) (block : List UInt8) (entries : List (List UInt8)) : Prop :=
  Ranges next dereference (findEnd isSigned) block entries

variable {isSigned : Bool} {fresh : Nat → UInt8}

theorem read_short {file : List UInt8} (short : (read file).length < pageSize) : read file = file := by
  rw [read, List.length_take] at short
  exact List.take_of_length_le (by omega)

theorem read_append_drop (file : List UInt8) : read file ++ file.drop pageSize = file := List.take_append_drop _ _

theorem readPages_extends (file procargs : List UInt8) :
    ∃ tail, readPages isSigned fresh file procargs = procargs ++ tail := by
  induction file, procargs using readPages.induct isSigned with
  | case1 file procargs short =>
    rw [readPages, if_pos short, List.append_assoc]
    exact ⟨_, rfl⟩
  | case2 file procargs full last =>
    rw [readPages, if_neg full, if_pos last]
    exact ⟨_, rfl⟩
  | case3 file procargs full last ih =>
    obtain ⟨tail, extended⟩ := ih
    rw [readPages, if_neg full, if_neg last, extended, List.append_assoc]
    exact ⟨_, rfl⟩

/-- Up to the first EOF in the file, or behind it, the block holds the file. -/
theorem readPages_upTo {file procargs front rest : List UInt8} (free : 0xff ∉ front)
    (split : file ++ [0xff] = front ++ 0xff :: rest) :
    ∃ tail, readPages isSigned fresh file procargs = procargs ++ front ++ 0xff :: tail := by
  induction file, procargs using readPages.induct isSigned generalizing front with
  | case1 file procargs short =>
    rw [readPages, if_pos short, read_short short]
    refine ⟨rest ++ (List.range (pageSize - file.length - 1)).map fresh, ?_⟩
    have moved := congrArg (procargs ++ · ++ (List.range (pageSize - file.length - 1)).map fresh) split
    simpa using moved
  | case2 file procargs full last =>
    rw [← read_append_drop file, List.append_assoc] at split
    rw [readPages, if_neg full, if_pos last]
    rcases first_occurrence free split with ⟨tail, same⟩ | ⟨absent, -⟩
    · exact ⟨tail, by rw [same, List.append_assoc]⟩
    · -- the loop has ended at an EOF in the page
      obtain ⟨char, final, promoted⟩ := Option.map_eq_some_iff.mp last
      obtain ⟨-, rfl⟩ := promote_eq_eof.mp promoted
      exact absurd (List.mem_of_getLast? final) absent
  | case3 file procargs full last ih =>
    rw [← read_append_drop file, List.append_assoc] at split
    rw [readPages, if_neg full, if_neg last]
    rcases first_occurrence free split with ⟨tail, same⟩ | ⟨-, later, rfl, behind⟩
    · have extends_read : ∃ more, readPages isSigned fresh (file.drop pageSize) (procargs ++ read file) =
          procargs ++ read file ++ more := readPages_extends _ _
      obtain ⟨more, extended⟩ := extends_read
      refine ⟨tail ++ more, ?_⟩
      rw [extended, same]
      simp
    · obtain ⟨tail, reached⟩ := ih (fun member => free (List.mem_append_right _ member)) behind
      refine ⟨tail, ?_⟩
      rw [reached]
      simp

theorem findEnd_upTo {front tail : List UInt8} (free : 0xff ∉ front) :
    findEnd true (front ++ 0xff :: tail) = some (0xff :: tail) := by
  refine seek_append (fun other member => decide_eq_false fun same => ?_) (decide_eq_true (promote_eq_eof.mpr ⟨rfl, rfl⟩))
  exact free ((promote_eq_eof.mp same).2 ▸ member)

theorem exists_first_eof {entries : List (List UInt8)} (present : ∃ entry ∈ entries, 0xff ∈ entry) :
    ∃ before front later after, entries = before ++ (front ++ 0xff :: later) :: after ∧
      (∀ entry ∈ before, 0xff ∉ entry) ∧ 0xff ∉ front := by
  induction entries with
  | nil => simp at present
  | cons entry others ih =>
    by_cases here : 0xff ∈ entry
    · obtain ⟨front, later, rfl, free⟩ := List.eq_append_cons_of_mem here
      exact ⟨[], front, later, others, rfl, by simp, free⟩
    · have later : ∃ other ∈ others, 0xff ∈ other := by
        obtain ⟨other, member, eof⟩ := present
        rcases List.mem_cons.mp member with rfl | member
        · exact absurd eof here
        · exact ⟨other, member, eof⟩
      obtain ⟨before, front, tail, after, rfl, free, clean⟩ := ih later
      exact ⟨entry :: before, front, tail, after, rfl, List.forall_mem_cons.mpr ⟨here, free⟩, clean⟩

theorem eof_not_mem_terminated {entries : List (List UInt8)} (clean : ∀ entry ∈ entries, 0xff ∉ entry) :
    0xff ∉ terminated 0 entries := by
  intro member
  obtain ⟨entry, present, inside⟩ := List.mem_flatMap.mp member
  rcases List.mem_append.mp inside with inside | inside
  · exact clean entry present inside
  · exact absurd (List.mem_singleton.mp inside) (by decide)

/-- Without an EOF among them, the entries are read up to the one behind the file. -/
theorem envView_of_clean {entries : List (List UInt8)} (valid : ∀ entry ∈ entries, Entry entry)
    (clean : ∀ entry ∈ entries, 0xff ∉ entry) : EnvView true (env true fresh (terminated 0 entries)) entries := by
  have free := eof_not_mem_terminated clean
  obtain ⟨tail, block⟩ : ∃ tail, readPages true fresh (terminated 0 entries) [] =
      [] ++ terminated 0 entries ++ 0xff :: tail := readPages_upTo free rfl
  rw [env, block, List.nil_append]
  refine ⟨_, findEnd_upTo free, ?_⟩
  exact (visits_terminated (fun entry member => (valid entry member).2) le_rfl).mpr ⟨[], by simp, .done rfl⟩

/-- With an EOF among them, the loop either ends in front of an entry or runs past its end. -/
theorem not_envView_of_eof {entries : List (List UInt8)} (valid : ∀ entry ∈ entries, Entry entry)
    (present : ∃ entry ∈ entries, 0xff ∈ entry) : ¬EnvView true (env true fresh (terminated 0 entries)) entries := by
  obtain ⟨before, front, later, behind, rfl, clean, free⟩ := exists_first_eof present
  have upTo : 0xff ∉ terminated 0 before ++ front := by
    rw [List.mem_append]
    exact not_or.mpr ⟨eof_not_mem_terminated clean, free⟩
  have split : terminated 0 (before ++ (front ++ 0xff :: later) :: behind) ++ [0xff] =
      terminated 0 before ++ front ++ 0xff :: (later ++ 0 :: terminated 0 behind ++ [0xff]) := by
    simp [terminated_append]
  obtain ⟨tail, block⟩ : ∃ tail, readPages true fresh (terminated 0 (before ++ (front ++ 0xff :: later) :: behind)) [] =
      [] ++ (terminated 0 before ++ front) ++ 0xff :: tail := readPages_upTo upTo split
  rw [env, block, List.nil_append]
  rintro ⟨stop, found, visits⟩
  rw [findEnd_upTo upTo, Option.some.injEq] at found
  subst found
  have whole : ∀ entry ∈ before, 0 ∉ entry := fun entry member => (valid entry (List.mem_append_left _ member)).2
  rw [List.append_assoc] at visits
  obtain ⟨others, same, visits⟩ := (visits_terminated whole (by simp)).mp visits
  by_cases started : front = []
  · -- the end is in front of this entry, so the loop misses it
    subst started
    rw [visits.at_stop rfl] at same
    simp at same
  · have string : 0 ∉ front := fun member =>
      (valid (front ++ 0xff :: later) (by simp)).2 (List.mem_append_left _ member)
    exact not_visits_inside started string visits

/-- The view of an environment gives its entries if and only if char has a sign, so that there
is a char that equals EOF, and no entry contains that char. -/
theorem envView_env {entries : List (List UInt8)} (valid : ∀ entry ∈ entries, Entry entry) :
    EnvView isSigned (env isSigned fresh (terminated 0 entries)) entries ↔
      isSigned = true ∧ ∀ entry ∈ entries, 0xff ∉ entry := by
  cases isSigned with
  | false =>
    -- no promoted char is negative, so find_end runs out of the block
    have unmarked : ∀ block, findEnd false block = none := by
      intro block
      refine seek_eq_none.mpr fun char _ => decide_eq_false fun same => ?_
      exact absurd (promote_eq_eof.mp same).1 (by decide)
    constructor
    · rintro ⟨stop, found, -⟩
      rw [unmarked] at found
      cases found
    · rintro ⟨sign, -⟩
      cases sign
  | true =>
    constructor
    · intro view
      refine ⟨rfl, fun entry member eof => ?_⟩
      exact not_envView_of_eof valid ⟨entry, member, eof⟩ view
    · rintro ⟨-, clean⟩
      exact envView_of_clean valid clean

theorem envView_env_two :
    EnvView true (env true (fun _ => 0) (terminated 0 [[65, 61, 49], [66, 61]])) [[65, 61, 49], [66, 61]] ↔
      true = true ∧ ∀ entry ∈ ([[65, 61, 49], [66, 61]] : List (List UInt8)), 0xff ∉ entry :=
  envView_env (by decide)

/-- The variable A with the value ÿ in Latin-1. -/
theorem not_envView_latin1 : ¬EnvView true (env true (fun _ => 0) (terminated 0 [[65, 61, 0xff]])) [[65, 61, 0xff]] :=
  not_envView_of_eof (by decide) ⟨_, List.mem_singleton_self _, by decide⟩

end Linux

/-! ## A terminator behind everything -/

/-- `find_end` on the BSDs, macOS and Windows: it runs while `*nh - 1` and `*nh` both differ
from the terminator, with *nh promoted to int. -/
def findEnd {Code : Type} (promoted : Code → Int) (nh : List Code) : Option (List Code) :=
  seek (fun code => !(promoted code - 1 != 0 && promoted code != 0)) nh

def EnvView {Code : Type} [OfNat Code 0] [DecidableEq Code] (promoted : Code → Int) (block : List Code)
    (entries : List (List Code)) : Prop :=
  Ranges next dereference (findEnd promoted) block entries

/-- `ext::env` on FreeBSD, DragonFly, NetBSD, OpenBSD and Solaris: the strings that libkvm
returns are copied one element at a time. -/
def Bsd.env (env : List (List UInt8)) : List UInt8 :=
  (env.flatMap fun string => string ++ [0]) ++ [0]

/-- `ext::env` on Windows, with the environment in the memory of the other process. -/
def Windows.env (environment : List UInt16) : List UInt16 := environment ++ [0]

namespace MacOs

/-- What KERN_PROCARGS2 delivers behind the number of arguments. -/
structure ProcArgs where
  executable : List UInt8
  path : 0 ∉ executable
  padding : Nat
  args : List (List UInt8)
  entries : List (List UInt8)
  /-- The elements of procargs that the call has not written. -/
  unused : Nat

def ProcArgs.written (procargs : ProcArgs) : List UInt8 :=
  procargs.executable ++ 0 :: List.replicate procargs.padding 0 ++ terminated 0 procargs.args ++ terminated 0 procargs.entries

/-- The loop that fills vec. Its counter i stays 0. -/
def collect (nargs : Nat) : List UInt8 → List UInt8
  | [] => []
  | sp :: rest =>
    if sp ≠ 0 ∨ 0 < nargs then (if nargs ≤ 0 then sp :: collect nargs rest else collect nargs rest)
    else []

/-- `ext::env`. A view of nothing has a null handle, and nothing can be read there either. -/
def env (procargs : ProcArgs) : List UInt8 :=
  let whole := procargs.written ++ List.replicate procargs.unused 0
  let cp := whole.dropWhile (· ≠ 0)
  if whole.length - cp.length = procargs.written.length then []
  else collect procargs.args.length (cp.dropWhile (· = 0))

end MacOs

section
variable {Code : Type} [OfNat Code 0] [DecidableEq Code] {promoted : Code → Int}

/-- Whatever the block is, the end that is found in it is no later than the first terminator,
so no loop over it reads a string and ends. -/
theorem not_envView (terminates : promoted 0 = 0) (block : List Code) {entries : List (List Code)}
    (some_entry : entries ≠ []) : ¬EnvView promoted block entries := by
  rintro ⟨stop, found, visits⟩
  obtain ⟨front, code, behind, rfl, rfl, -, skipped⟩ := seek_inv found
  by_cases started : front = []
  · subst started
    exact some_entry (visits.at_stop rfl)
  · have free : 0 ∉ front := by
      intro member
      have passed := skipped 0 member
      simp [terminates] at passed
    exact not_visits_inside started free visits

theorem envView_nil (terminates : promoted 0 = 0) (rest : List Code) : EnvView promoted (0 :: rest) [] := by
  refine ⟨0 :: rest, ?_, .done rfl⟩
  simp [findEnd, seek, terminates]

end

namespace MacOs

theorem collect_of_args {nargs : Nat} (args : 0 < nargs) (sp : List UInt8) : collect nargs sp = [] := by
  induction sp with
  | nil => rfl
  | cons first rest ih =>
    have kept : ¬nargs ≤ 0 := by omega
    simp only [collect, args, or_true, if_true, kept, if_false, ih]

/-- Without entries nothing is collected, not even a terminator. -/
theorem env_of_no_entries {procargs : ProcArgs} (empty : procargs.entries = []) : env procargs = [] := by
  simp only [env]
  split
  · rfl
  · cases args : procargs.args with
    | cons first others => exact collect_of_args (by simp) _
    | nil =>
      -- behind the path there are only terminators
      have zeros : procargs.written ++ List.replicate procargs.unused 0 =
          procargs.executable ++ List.replicate (procargs.padding + procargs.unused + 1) 0 := by
        simp only [ProcArgs.written, args, empty, terminated_nil, List.append_nil, List.append_assoc, List.cons_append,
          List.replicate_append_replicate, List.replicate_succ]
      have path : ∀ char ∈ procargs.executable, decide (char ≠ 0) = true :=
        fun char member => decide_eq_true fun same => procargs.path (same ▸ member)
      rw [zeros, List.dropWhile_append_of_pos path]
      simp [List.replicate_succ, collect]

end MacOs

/-- On Windows and the BSDs the view gives the entries of an environment if and only if it has
none; on macOS it never does. -/
theorem envView_double_terminator (isSigned : Bool) :
    (∀ (entries : List (List UInt16)) (slack : List UInt16),
      EnvView (fun code => code.toNat) (Windows.env (terminated 0 entries ++ 0 :: slack)) entries ↔ entries = []) ∧
    (∀ entries : List (List UInt8), EnvView (promote isSigned) (Bsd.env entries) entries ↔ entries = []) ∧
    ∀ procargs : MacOs.ProcArgs, ¬EnvView (promote isSigned) (MacOs.env procargs) procargs.entries := by
  have terminates : promote isSigned 0 = 0 := promote_eq_zero.mpr rfl
  refine ⟨fun entries slack => ⟨?_, ?_⟩, fun entries => ⟨?_, ?_⟩, fun procargs view => ?_⟩
  · exact fun view => by_contra fun some_entry => not_envView rfl _ some_entry view
  · rintro rfl
    exact envView_nil rfl _
  · exact fun view => by_contra fun some_entry => not_envView terminates _ some_entry view
  · rintro rfl
    exact envView_nil terminates _
  · by_cases empty : procargs.entries = []
    · rw [MacOs.env_of_no_entries empty] at view
      obtain ⟨stop, found, -⟩ := view
      cases found
    · exact not_envView terminates _ empty view

/-- A process with the variable A, on the BSDs. -/
theorem not_envView_bsd_one : ¬EnvView (promote true) (Bsd.env [[65, 61, 49]]) [[65, 61, 49]] :=
  not_envView rfl _ (by decide)

end BoostProcess.V2.Ext
